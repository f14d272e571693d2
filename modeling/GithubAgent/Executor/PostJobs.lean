import GithubAgent.Base.LastBy
import Mathlib.Data.List.Permutation

/-!
# Post-processing jobs of a run

The hooks that buffer jobs for the memory, retrospector and indexing workers
(`src/shared/sdk_factory.py:296-440`), and the flush that sends them to the queues of the workers
(`src/shared/post_processing.py:156-215`). `_execute_sdk_loop` configures a new builder in each of
its iterations, and only some of its ends flush the last one
(`src/services/sandbox_executor/processor.py:567-772,882-887`). Redis takes every job it is sent.
-/

namespace GithubAgent.Executor.PostJobs

open Base

/-! ### Hook calls -/

/-- The events that the hooks are registered for. -/
inductive HookEvent where
  | stop
  | subagentStop
  deriving DecidableEq

def HookEvent.name : HookEvent → String
  | .stop => "Stop"
  | .subagentStop => "SubagentStop"

/-- `f"job_{hook_event.lower()}"`. -/
def HookEvent.trigger : HookEvent → String
  | .stop => "job_stop"
  | .subagentStop => "job_subagentstop"

/-- The fields of `input_data` that the hook reads. -/
structure HookInput where
  event : HookEvent
  agentTranscriptPath : Option String
  transcriptPathCamelCase : Option String
  transcriptPath : Option String
  numTurns : Option Int
  isError : Option Bool
  durationMs : Option Int
  agentId : Option String
  agentType : Option String

/-- `session_meta` of a retrospector job. -/
structure SessionMeta where
  numTurns : Int
  isError : Bool
  durationMs : Int
  agentId : Option String
  agentType : Option String
  deriving DecidableEq

/-- A hook call that names a transcript. -/
structure Firing where
  transcriptPath : String
  event : HookEvent
  sessionMeta : SessionMeta

/-- A string that counts as true. -/
def truthy (value : Option String) : Option String := value.filter (· ≠ "")

/-- `transcript_path` of the hook (`sdk_factory.py:356-363`). -/
def HookInput.path (input : HookInput) : Option String :=
  match input.event with
  | .subagentStop => truthy input.agentTranscriptPath
  | .stop => (truthy input.transcriptPathCamelCase).or (truthy input.transcriptPath)

/-- The hook buffers nothing without a path (`sdk_factory.py:365-370`). -/
def HookInput.firing (input : HookInput) : Option Firing :=
  input.path.map fun path ↦
    { transcriptPath := path
      event := input.event
      sessionMeta :=
        { numTurns := input.numTurns.getD 0
          isError := input.isError.getD false
          durationMs := input.durationMs.getD 0
          agentId := input.agentId
          agentType := input.agentType } }

/-! ### Jobs -/

/-- `_repo_context`; the keys that are not set read as `None`. -/
@[ext]
structure RepoContext where
  claudeMd : Option String
  memoryIndex : Option String
  deriving DecidableEq

def RepoContext.empty : RepoContext := ⟨none, none⟩

/-- `type` of a job. -/
inductive JobType where
  | memory
  | retrospector
  | indexing
  deriving DecidableEq

/-- What the builders of a run are given; `langfuse` says that its keys are set. -/
structure Config where
  memoryEnabled : Bool
  retrospectorEnabled : Bool
  indexingEnabled : Bool
  langfuse : Bool
  repo : String
  workflowName : String
  ref : Option String
  context : RepoContext

def Config.enabled (c : Config) : JobType → Bool
  | .memory => c.memoryEnabled
  | .retrospector => c.retrospectorEnabled
  | .indexing => c.indexingEnabled

/-- The types that a hook call buffers, in this order. -/
def Config.enabledTypes (c : Config) : List JobType :=
  [.memory, .retrospector, .indexing].filter c.enabled

/-- A dict of `_pending_post_jobs`. -/
inductive PendingJob where
  | memory (repo transcriptPath : String) (event : HookEvent) (claudeMd memoryIndex : Option String)
  | retrospector (repo transcriptPath : String) (event : HookEvent) (workflowName : String)
      (sessionMeta : SessionMeta)
  | indexing (repo : String) (event : HookEvent) (ref : Option String)
  deriving DecidableEq

def PendingJob.type : PendingJob → JobType
  | .memory .. => .memory
  | .retrospector .. => .retrospector
  | .indexing .. => .indexing

/-- The key that the flush tells jobs apart by; an indexing job has no transcript path. -/
def PendingJob.key : PendingJob → String × HookEvent × JobType
  | .memory _ transcriptPath event _ _ => (transcriptPath, event, .memory)
  | .retrospector _ transcriptPath event _ _ => (transcriptPath, event, .retrospector)
  | .indexing _ event _ => ("", event, .indexing)

/-- The job of one type (`sdk_factory.py:374-414`). -/
def pendingJob (c : Config) (context : RepoContext) (f : Firing) : JobType → PendingJob
  | .memory => .memory c.repo f.transcriptPath f.event context.claudeMd context.memoryIndex
  | .retrospector => .retrospector c.repo f.transcriptPath f.event c.workflowName f.sessionMeta
  | .indexing => .indexing c.repo f.event c.ref

/-- The payloads on the queues of the workers. -/
inductive Request where
  | memory (repo transcriptPath hookEvent : String) (claudeMd memoryIndex : Option String)
  | retrospector (repo transcriptPath hookEvent : String) (workflowName : String)
      (sessionMeta : SessionMeta)
  | indexing (repo ref trigger : String)
  deriving DecidableEq

def Request.type : Request → JobType
  | .memory .. => .memory
  | .retrospector .. => .retrospector
  | .indexing .. => .indexing

/-- `enqueue_memory_job`, `enqueue_retrospector_job` and `enqueue_indexing_job`. -/
def PendingJob.enqueue : PendingJob → Request
  | .memory repo transcriptPath event claudeMd memoryIndex =>
    .memory repo transcriptPath event.name claudeMd memoryIndex
  | .retrospector repo transcriptPath event workflowName sessionMeta =>
    .retrospector repo transcriptPath event.name workflowName sessionMeta
  | .indexing repo event ref => .indexing repo ((truthy ref).getD "main") event.trigger

/-- `flush_pending_post_jobs`: the last job of each key is enqueued. -/
def flushPendingPostJobs (jobs : List PendingJob) : List Request :=
  (dictValues PendingJob.key jobs).map PendingJob.enqueue

/-! ### Builders -/

/-- The hooks of a builder; `capture_and_buffer` keeps the context it was made with. -/
inductive Hook where
  | langfuse
  | captureAndBuffer (context : RepoContext)

/-- `SDKOptionsBuilder`. The hooks append to the buffer of their builder, which is replaced only by
the flush. -/
structure Builder where
  hooks : HookEvent → List Hook
  repoContext : RepoContext
  pending : List PendingJob

def Builder.new : Builder := ⟨fun _ ↦ [], .empty, []⟩

/-- The hooks of Langfuse take the place of those that are there (`_hooks.update`). -/
def withLangfuseHooks (c : Config) (b : Builder) : Builder :=
  if c.langfuse then { b with hooks := fun _ ↦ [.langfuse] } else b

/-- `with_transcript_staging` (`sdk_factory.py:341-427`). -/
def withTranscriptStaging (c : Config) (b : Builder) : Builder :=
  if c.memoryEnabled || c.retrospectorEnabled then
    { b with hooks := fun event ↦ b.hooks event ++ [.captureAndBuffer b.repoContext] }
  else b

/-- `with_repository_context` makes a new dict (`sdk_factory.py:531-534`). -/
def withRepositoryContext (c : Config) (b : Builder) : Builder :=
  { b with repoContext := c.context }

/-- The calls that bear on the jobs. -/
inductive BuilderCall where
  | langfuseHooks
  | transcriptStaging
  | repositoryContext
  deriving DecidableEq

def BuilderCall.apply (c : Config) : BuilderCall → Builder → Builder
  | .langfuseHooks => withLangfuseHooks c
  | .transcriptStaging => withTranscriptStaging c
  | .repositoryContext => withRepositoryContext c

/-- An order of the builder calls. -/
structure BuilderOrder where
  calls : List BuilderCall
  perm : calls.Perm [.langfuseHooks, .transcriptStaging, .repositoryContext]

/-- The order of `configure_builder` (`src/services/sandbox_executor/utils.py:69-100`). -/
def BuilderOrder.configureBuilder : BuilderOrder :=
  ⟨[.langfuseHooks, .transcriptStaging, .repositoryContext], .refl _⟩

def BuilderOrder.Precedes (order : BuilderOrder) (a b : BuilderCall) : Prop :=
  order.calls.idxOf a < order.calls.idxOf b

instance (order : BuilderOrder) (a b : BuilderCall) : Decidable (order.Precedes a b) :=
  inferInstanceAs (Decidable (_ < _))

/-- A builder after the calls. -/
def configured (c : Config) (order : BuilderOrder) : Builder :=
  order.calls.foldl (fun b call ↦ call.apply c b) .new

/-- `capture_and_buffer`; the hook of Langfuse buffers nothing. -/
def Hook.run (c : Config) (input : HookInput) (b : Builder) : Hook → Builder
  | .langfuse => b
  | .captureAndBuffer context =>
    match input.firing with
    | none => b
    | some f => { b with pending := b.pending ++ c.enabledTypes.map (pendingJob c context f) }

/-- The SDK calls the hooks of the event. -/
def Builder.fire (c : Config) (b : Builder) (input : HookInput) : Builder :=
  (b.hooks input.event).foldl (Hook.run c input) b

/-- `SDKOptionsBuilder.flush_pending_post_jobs`. -/
def Builder.flush (b : Builder) : Builder × List Request :=
  ({ b with pending := [] }, flushPendingPostJobs b.pending)

/-! ### The run -/

/-- `self.builder`, and the jobs enqueued so far. -/
structure Processor where
  builder : Option Builder
  enqueued : List Request

/-- The builder is flushed if there is one (`processor.py:771-772,884-885`). -/
def Processor.flush (p : Processor) : Processor :=
  match p.builder with
  | none => p
  | some b => ⟨some b.flush.1, p.enqueued ++ b.flush.2⟩

/-- An iteration of the loop, with the hook calls of its SDK run, retries included. -/
def iteration (c : Config) (order : BuilderOrder) (p : Processor) (inputs : List HookInput) :
    Processor :=
  { p with builder := some (inputs.foldl (Builder.fire c) (configured c order)) }

/-- How the run ends: the loop returns, and saving its result may fail afterwards; it raises; or it
is superseded. -/
inductive End where
  | returned
  | failedAfter
  | raised
  | superseded
  deriving DecidableEq

/-- `_execute_sdk_loop` flushes where it returns a result, `_handle_error` after an exception. -/
def Processor.finish (p : Processor) : End → List Request
  | .returned => p.flush.enqueued
  | .failedAfter => p.flush.flush.enqueued
  | .raised => p.flush.enqueued
  | .superseded => p.enqueued

/-- What a run enqueues. Every iteration but the last was followed by an auto-continue. -/
def run (c : Config) (order : BuilderOrder) (iterations : List (List HookInput)) (ending : End) :
    List Request :=
  (iterations.foldl (iteration c order) ⟨none, []⟩).finish ending

/-! ### What should be enqueued -/

/-- The hook calls with a path, of all iterations. -/
def firings (iterations : List (List HookInput)) : List Firing :=
  iterations.flatten.filterMap HookInput.firing

def Firing.place (f : Firing) : String × HookEvent := (f.transcriptPath, f.event)

/-- For each type that is enabled, the job of the last call for each path and event, with the given
context. -/
def expected (c : Config) (iterations : List (List HookInput)) : List Request :=
  c.enabledTypes.flatMap fun type ↦
    (lastBy Firing.place (firings iterations)).map fun f ↦ (pendingJob c c.context f type).enqueue

/-- Every job is enqueued once, and no other. -/
def EnqueuedOnce (c : Config) (order : BuilderOrder) (iterations : List (List HookInput))
    (ending : End) : Prop :=
  (run c order iterations ending).Perm (expected c iterations)

/-- `capture_and_buffer` is among the hooks: it is added only for the memory and the retrospector
worker, and the hooks of Langfuse must come before it. -/
def Registered (c : Config) (order : BuilderOrder) : Prop :=
  (c.memoryEnabled = true ∨ c.retrospectorEnabled = true) ∧
    (c.langfuse = true → order.Precedes .langfuseHooks .transcriptStaging)

instance (c : Config) (order : BuilderOrder) : Decidable (Registered c order) :=
  inferInstanceAs (Decidable (_ ∧ _))

/-- Nothing is lost: the run is not superseded, the hook is registered, the last iteration repeats
the calls of the others, the context is there when the hook is made, and no event comes with two
transcripts when there are indexing jobs, which do not name theirs. -/
structure Undisturbed (c : Config) (order : BuilderOrder) (iterations : List (List HookInput))
    (ending : End) : Prop where
  ended : ending ≠ .superseded
  registered : Registered c order
  repeated : ∀ f ∈ firings iterations.dropLast, ∃ g ∈ firings iterations.getLast?.toList,
    g.place = f.place
  context : c.memoryEnabled = true →
    order.Precedes .repositoryContext .transcriptStaging ∨ c.context = .empty
  onePath : c.indexingEnabled = true → ∀ f ∈ firings iterations, ∀ g ∈ firings iterations,
    f.event = g.event → f.transcriptPath = g.transcriptPath

/-! ### The builder of an iteration -/

section Iteration

variable {c : Config} {order : BuilderOrder}

/-- The contexts that the hooks of an event were made with. -/
def Builder.contexts (b : Builder) (event : HookEvent) : List RepoContext :=
  (b.hooks event).filterMap fun
    | .langfuse => none
    | .captureAndBuffer context => some context

/-- The context that the hook is made with. -/
def captured (c : Config) (order : BuilderOrder) : RepoContext :=
  if order.Precedes .repositoryContext .transcriptStaging then c.context else .empty

theorem BuilderOrder.calls_mem (order : BuilderOrder) :
    order.calls ∈ List.permutations' [.langfuseHooks, .transcriptStaging, .repositoryContext] :=
  List.mem_permutations'.mpr order.perm

/-- The hook is among those of a configured builder, or none is. -/
theorem contexts_configured (event : HookEvent) : (configured c order).contexts event =
    if Registered c order then [captured c order] else [] := by
  have hmem := order.calls_mem
  have hon : (c.memoryEnabled = true ∨ c.retrospectorEnabled = true) ↔
      (c.memoryEnabled || c.retrospectorEnabled) = true := by
    rw [Bool.or_eq_true]
  obtain ⟨calls, perm⟩ := order
  simp only [List.permutations', List.permutations'Aux, List.flatMap_cons, List.flatMap_nil,
    List.append_nil, List.map_cons, List.map_nil, List.cons_append, List.nil_append,
    List.mem_cons, List.not_mem_nil, or_false] at hmem
  -- One order of the calls after the other, with each answer of the settings.
  rcases hmem with rfl | rfl | rfl | rfl | rfl | rfl
  all_goals
    simp only [Registered, captured, BuilderOrder.Precedes, configured, hon, List.foldl_cons,
      List.foldl_nil, BuilderCall.apply, withLangfuseHooks, withTranscriptStaging,
      withRepositoryContext]
    cases c.memoryEnabled || c.retrospectorEnabled <;> cases c.langfuse <;> rfl

theorem pending_configured : (configured c order).pending = [] := by
  have h (b : Builder) (calls : List BuilderCall) :
      (calls.foldl (fun b call ↦ call.apply c b) b).pending = b.pending := by
    induction calls generalizing b with
    | nil => rfl
    | cons call rest ih =>
      rw [List.foldl_cons, ih]
      cases call
      · unfold BuilderCall.apply withLangfuseHooks
        split <;> rfl
      · unfold BuilderCall.apply withTranscriptStaging
        split <;> rfl
      · rfl
  exact h .new order.calls

/-- A hook call leaves the hooks, and buffers its jobs once for each hook that captures. -/
theorem fire_eq (b : Builder) (input : HookInput) : b.fire c input =
    { b with pending := b.pending ++ (b.contexts input.event).flatMap fun context ↦
        input.firing.toList.flatMap fun f ↦ c.enabledTypes.map (pendingJob c context f) } := by
  have h (hooks : List Hook) (b : Builder) : hooks.foldl (Hook.run c input) b =
      { b with pending := b.pending ++ (hooks.filterMap fun
          | .langfuse => none
          | .captureAndBuffer context => some context).flatMap fun context ↦
            input.firing.toList.flatMap fun f ↦ c.enabledTypes.map (pendingJob c context f) } := by
    induction hooks generalizing b with
    | nil => simp
    | cons hook rest ih =>
      rw [List.foldl_cons, ih]
      cases hook with
      | langfuse => rfl
      | captureAndBuffer context =>
        cases hf : input.firing with
        | none => simp [Hook.run, hf]
        | some f => simp [Hook.run, hf]
  exact h _ b

/-- The buffer after hook calls. -/
theorem pending_foldl_fire (inputs : List HookInput) (b : Builder) :
    (inputs.foldl (Builder.fire c) b).pending = b.pending ++ inputs.flatMap fun input ↦
      (b.contexts input.event).flatMap fun context ↦
        input.firing.toList.flatMap fun f ↦ c.enabledTypes.map (pendingJob c context f) := by
  induction inputs generalizing b with
  | nil => simp
  | cons input rest ih =>
    have hcontexts : (b.fire c input).contexts = b.contexts := by
      rw [fire_eq]
      rfl
    rw [List.foldl_cons, ih, hcontexts, fire_eq, List.flatMap_cons, List.append_assoc]

theorem firings_append (iterations more : List (List HookInput)) :
    firings (iterations ++ more) = firings iterations ++ firings more := by
  rw [firings, List.flatten_append, List.filterMap_append]
  rfl

theorem firings_singleton (inputs : List HookInput) :
    firings [inputs] = inputs.filterMap HookInput.firing := by
  rw [firings, List.flatten_singleton]

variable (c order) in
/-- The jobs that an iteration buffers. -/
def buffered (inputs : List HookInput) : List PendingJob :=
  if Registered c order then
    (firings [inputs]).flatMap fun f ↦ c.enabledTypes.map (pendingJob c (captured c order) f)
  else []

theorem pending_iteration (inputs : List HookInput) :
    (inputs.foldl (Builder.fire c) (configured c order)).pending = buffered c order inputs := by
  rw [pending_foldl_fire, pending_configured, List.nil_append, buffered, firings_singleton]
  simp only [contexts_configured]
  split
  · simp only [List.flatMap_singleton, List.filterMap_eq_flatMap_toList, List.flatMap_assoc]
  · simp

/-- A run enqueues the jobs of its last iteration, or nothing. -/
theorem run_eq (iterations : List (List HookInput)) (ending : End) : run c order iterations ending =
    if ending = .superseded then [] else
      iterations.getLast?.toList.flatMap fun inputs ↦
        flushPendingPostJobs (buffered c order inputs) := by
  have henqueued (p : Processor) (iterations : List (List HookInput)) :
      (iterations.foldl (iteration c order) p).enqueued = p.enqueued := by
    induction iterations generalizing p with
    | nil => rfl
    | cons inputs rest ih => exact ih (iteration c order p inputs)
  unfold run
  induction iterations using List.reverseRecOn with
  | nil => cases ending <;> rfl
  | append_singleton earlier last _ =>
    rw [List.foldl_append, List.getLast?_concat]
    have hflush : flushPendingPostJobs [] = [] := rfl
    cases ending <;>
      simp [iteration, Processor.finish, Processor.flush, Builder.flush, henqueued,
        pending_iteration, hflush]

end Iteration

/-! ### The jobs of one type -/

section Types

variable {c : Config}

theorem HookEvent.name_injective : Function.Injective HookEvent.name := by
  intro a b h
  cases a <;> cases b
  · rfl
  · exact absurd h (by decide)
  · exact absurd h (by decide)
  · rfl

theorem HookEvent.trigger_injective : Function.Injective HookEvent.trigger := by
  intro a b h
  cases a <;> cases b
  · rfl
  · exact absurd h (by decide)
  · exact absurd h (by decide)
  · rfl

theorem type_enqueue (job : PendingJob) : job.enqueue.type = job.type := by
  cases job <;> rfl

theorem type_pendingJob (context : RepoContext) (f : Firing) (type : JobType) :
    (pendingJob c context f type).type = type := by
  cases type <;> rfl

theorem mem_enabledTypes {type : JobType} : type ∈ c.enabledTypes ↔ c.enabled type = true := by
  rw [Config.enabledTypes, List.mem_filter]
  constructor
  · exact And.right
  · intro h
    refine ⟨?_, h⟩
    cases type <;> simp

variable (c) in
/-- The request of a call. -/
def request (context : RepoContext) (type : JobType) (f : Firing) : Request :=
  (pendingJob c context f type).enqueue

theorem type_request (context : RepoContext) (type : JobType) (f : Firing) :
    (request c context type f).type = type := by
  rw [request, type_enqueue, type_pendingJob]

/-- What the flush tells the jobs of one type apart by. -/
def dedupKey (type : JobType) (f : Firing) : String × HookEvent :=
  match type with
  | .indexing => ("", f.event)
  | _ => f.place

/-- A type is buffered once, if it is enabled. -/
theorem filter_enabledTypes (type : JobType) :
    c.enabledTypes.filter (· = type) = if c.enabled type then [type] else [] := by
  rw [Config.enabledTypes, List.filter_filter]
  cases type <;> cases hm : c.enabled .memory <;> cases hr : c.enabled .retrospector <;>
    cases hi : c.enabled .indexing <;> simp [hm, hr, hi]

/-- Of a list with entries for every enabled type, those of one type. -/
theorem filter_map_enabledTypes {B : Type} (g : JobType → B) (typeOf : B → JobType)
    (h : ∀ type, typeOf (g type) = type) (type : JobType) :
    (c.enabledTypes.map g).filter (typeOf · = type) =
      if c.enabled type then [g type] else [] := by
  have hcomp : (fun b ↦ decide (typeOf b = type)) ∘ g = fun t ↦ decide (t = type) := by
    funext t
    rw [Function.comp_apply, h]
  rw [List.filter_map, hcomp, filter_enabledTypes]
  split
  · rfl
  · rfl

/-- Two calls have one key of a type exactly when the flush does not tell them apart. -/
theorem lastBy_key_pendingJob (context : RepoContext) (type : JobType) (fs : List Firing) :
    lastBy PendingJob.key (fs.map (pendingJob c context · type)) =
      (lastBy (dedupKey type) fs).map (pendingJob c context · type) := by
  rw [lastBy_map]
  congr 1
  apply lastBy_eq_of_keys
  intro f _ g _
  cases type <;> simp [PendingJob.key, pendingJob, dedupKey, Firing.place]

/-- The requests of one type that the flush makes of the calls. -/
theorem filter_flush (context : RepoContext) (type : JobType) (fs : List Firing) :
    ((flushPendingPostJobs (fs.flatMap fun f ↦
      c.enabledTypes.map (pendingJob c context f))).filter (Request.type · = type)).Perm
      (if c.enabled type then (lastBy (dedupKey type) fs).map (request c context type)
        else []) := by
  have hcomp : (fun r ↦ decide (Request.type r = type)) ∘ PendingJob.enqueue =
      fun job ↦ decide (PendingJob.type job = type) := by
    funext job
    rw [Function.comp_apply, type_enqueue]
  have hkey (a b : PendingJob) (h : a.key = b.key) :
      decide (a.type = type) = decide (b.type = type) := by
    have htype (job : PendingJob) : job.type = job.key.2.2 := by
      cases job <;> rfl
    rw [htype, htype, h]
  have hjobs : (fs.flatMap fun f ↦ c.enabledTypes.map (pendingJob c context f)).filter
      (PendingJob.type · = type) =
        if c.enabled type then fs.map (pendingJob c context · type) else [] := by
    rw [List.filter_flatMap]
    simp only [filter_map_enabledTypes _ _ (type_pendingJob context _)]
    split
    · exact List.flatMap_pure_eq_map _ _
    · simp
  rw [flushPendingPostJobs, List.filter_map, hcomp]
  refine ((((dictValues_perm _).filter _).map _).trans (List.Perm.of_eq ?_))
  rw [filter_lastBy hkey, hjobs]
  split
  · rw [lastBy_key_pendingJob, List.map_map]
    rfl
  · rfl

/-- The requests of one type that should be enqueued. -/
theorem filter_expected (type : JobType) (iterations : List (List HookInput)) :
    (expected c iterations).filter (Request.type · = type) =
      if c.enabled type then
        (lastBy Firing.place (firings iterations)).map (request c c.context type)
      else [] := by
  have htype (t : JobType) :
      ((lastBy Firing.place (firings iterations)).map (request c c.context t)).filter
        (Request.type · = type) =
          if t = type then
            (lastBy Firing.place (firings iterations)).map (request c c.context type)
          else [] := by
    split
    · next h =>
      rw [h, List.filter_eq_self]
      intro r hr
      obtain ⟨f, _, rfl⟩ := List.mem_map.mp hr
      simpa using type_request c.context type f
    · next h =>
      rw [List.filter_eq_nil_iff]
      intro r hr
      obtain ⟨f, _, rfl⟩ := List.mem_map.mp hr
      simpa [type_request] using h
  have hunfold : expected c iterations = c.enabledTypes.flatMap fun t ↦
      (lastBy Firing.place (firings iterations)).map (request c c.context t) := rfl
  rw [hunfold, List.filter_flatMap]
  simp only [htype]
  rw [flatMap_eq_flatMap_filter (· = type), filter_enabledTypes]
  · split
    · rw [List.flatMap_singleton, if_pos rfl]
    · rfl
  · intro t _ hne
    rw [if_neg (of_decide_eq_false hne)]

end Types

/-! ### When nothing is lost -/

section Lost

variable {c : Config} {order : BuilderOrder}

/-- The hook event of a request, or its trigger. -/
def Request.label : Request → String
  | .memory _ _ hookEvent _ _ => hookEvent
  | .retrospector _ _ hookEvent _ _ => hookEvent
  | .indexing _ _ trigger => trigger

def triggerOf (f : Firing) : String := f.event.trigger

/-- The requests of each type that are enqueued are the right ones. -/
def TypeRight (c : Config) (order : BuilderOrder) (early late : List Firing) (type : JobType) :
    Prop :=
  ((lastBy (dedupKey type) late).map (request c (captured c order) type)).Perm
    ((lastBy Firing.place (early ++ late)).map (request c c.context type))

/-- Which type a request has tells the requests of a run apart. -/
theorem enqueuedOnce_concat {earlier : List (List HookInput)} {last : List HookInput} {ending : End}
    (hended : ending ≠ .superseded) (hregistered : Registered c order) :
    EnqueuedOnce c order (earlier ++ [last]) ending ↔
      ∀ type, c.enabled type = true →
        TypeRight c order (firings earlier) (firings [last]) type := by
  have hrun : run c order (earlier ++ [last]) ending = flushPendingPostJobs
      ((firings [last]).flatMap fun f ↦
        c.enabledTypes.map (pendingJob c (captured c order) f)) := by
    rw [run_eq, if_neg hended, List.getLast?_concat, Option.toList_some, List.flatMap_singleton,
      buffered, if_pos hregistered]
  unfold EnqueuedOnce TypeRight
  rw [hrun, ← firings_append]
  constructor
  · intro hperm type htype
    have hfilter := hperm.filter (Request.type · = type)
    rw [filter_expected, if_pos htype] at hfilter
    refine List.Perm.trans (List.Perm.symm ?_) hfilter
    simpa [htype] using filter_flush (c := c) (captured c order) type (firings [last])
  · intro h
    apply perm_of_filter Request.type
    intro type
    refine (filter_flush _ type _).trans ?_
    rw [filter_expected]
    split
    · next htype => exact h type htype
    · exact List.Perm.refl _

/-- A request of the memory or the retrospector worker names its path and its event. -/
theorem place_eq_of_request {type : JobType} (hne : type ≠ .indexing)
    {context context' : RepoContext} {f g : Firing}
    (h : request c context type f = request c context' type g) :
    f.place = g.place := by
  cases type with
  | indexing => exact absurd rfl hne
  | memory =>
    simp only [request, pendingJob, PendingJob.enqueue, Request.memory.injEq] at h
    rw [Firing.place, Firing.place, h.2.1, HookEvent.name_injective h.2.2.1]
  | retrospector =>
    simp only [request, pendingJob, PendingJob.enqueue, Request.retrospector.injEq] at h
    rw [Firing.place, Firing.place, h.2.1, HookEvent.name_injective h.2.2.1]

/-- Every call that is right in a type has its request enqueued. -/
theorem exists_of_typeRight {early late : List Firing} {type : JobType} {f : Firing}
    (h : TypeRight c order early late type) (hf : f ∈ early ++ late) :
    ∃ g ∈ late, ∃ g' ∈ early ++ late, g'.place = f.place ∧
      request c (captured c order) type g = request c c.context type g' := by
  obtain ⟨g', hg', hplace⟩ := exists_mem_lastBy Firing.place hf
  have hmem := h.mem_iff.mpr (List.mem_map_of_mem hg')
  obtain ⟨g, hg, heq⟩ := List.mem_map.mp hmem
  exact ⟨g, mem_of_mem_lastBy hg, g', mem_of_mem_lastBy hg', hplace, heq⟩

theorem repeated_of_typeRight {early late : List Firing} {type : JobType} (hne : type ≠ .indexing)
    (h : TypeRight c order early late type) : ∀ f ∈ early, ∃ g ∈ late, g.place = f.place := by
  intro f hf
  obtain ⟨g, hg, g', _, hplace, heq⟩ := exists_of_typeRight h (List.mem_append_left late hf)
  exact ⟨g, hg, (place_eq_of_request hne heq).trans hplace⟩

theorem captured_eq_iff : captured c order = c.context ↔
    order.Precedes .repositoryContext .transcriptStaging ∨ c.context = .empty := by
  unfold captured
  split
  · next h => simp [h]
  · next h => simp [h, eq_comm]

/-- Memory jobs are right with the context. -/
theorem typeRight_memory {early late : List Firing} (hne : early ++ late ≠ [])
    (hrepeated : ∀ f ∈ early, ∃ g ∈ late, g.place = f.place) :
    TypeRight c order early late .memory ↔ captured c order = c.context := by
  constructor
  · intro h
    obtain ⟨f, hf⟩ := List.exists_mem_of_ne_nil _ hne
    obtain ⟨g, _, g', _, _, heq⟩ := exists_of_typeRight h hf
    simp only [request, pendingJob, PendingJob.enqueue, Request.memory.injEq] at heq
    exact RepoContext.ext heq.2.2.2.1 heq.2.2.2.2
  · intro h
    rw [TypeRight, lastBy_append_of_again hrepeated, h]
    exact List.Perm.refl _

theorem typeRight_retrospector {early late : List Firing}
    (hrepeated : ∀ f ∈ early, ∃ g ∈ late, g.place = f.place) :
    TypeRight c order early late .retrospector := by
  rw [TypeRight, lastBy_append_of_again hrepeated]
  exact List.Perm.refl _

/-- Indexing jobs are right when no event comes with two paths. -/
theorem typeRight_indexing {early late : List Firing}
    (hrepeated : ∀ f ∈ early, ∃ g ∈ late, g.place = f.place) :
    TypeRight c order early late .indexing ↔ ∀ f ∈ early ++ late, ∀ g ∈ early ++ late,
      f.event = g.event → f.transcriptPath = g.transcriptPath := by
  have hlate : ∀ f ∈ early ++ late, ∃ g ∈ late, g.place = f.place := by
    intro f hf
    rcases List.mem_append.mp hf with hf | hf
    · exact hrepeated f hf
    · exact ⟨f, hf, rfl⟩
  rw [TypeRight, lastBy_append_of_again hrepeated]
  constructor
  · intro h f hf g hg hevent
    obtain ⟨f', hf', hplacef⟩ := hlate f hf
    obtain ⟨g', hg', hplaceg⟩ := hlate g hg
    have hkeys : lastBy (dedupKey .indexing) late = lastBy triggerOf late := by
      apply lastBy_eq_of_keys
      intro a _ b _
      simp [dedupKey, triggerOf, HookEvent.trigger_injective.eq_iff]
    have htriggers := h.map Request.label
    rw [List.map_map, List.map_map, hkeys] at htriggers
    have hplace : f'.place = g'.place := by
      apply eq_of_perm_lastBy htriggers hf' hg'
      · intro a b hab
        exact congrArg (HookEvent.trigger ∘ Prod.snd) hab
      · change HookEvent.trigger f'.place.2 = HookEvent.trigger g'.place.2
        rw [hplacef, hplaceg]
        exact congrArg HookEvent.trigger hevent
    exact congrArg Prod.fst (hplacef.symm.trans (hplace.trans hplaceg))
  · intro h
    have hkeys : lastBy (dedupKey .indexing) late = lastBy Firing.place late := by
      apply lastBy_eq_of_keys
      intro a ha b hb
      have hpath := h a (List.mem_append_right _ ha) b (List.mem_append_right _ hb)
      simpa [dedupKey, Firing.place] using hpath
    rw [hkeys]
    exact List.Perm.refl _

theorem expected_eq_nil {iterations : List (List HookInput)} :
    expected c iterations = [] ↔ firings iterations = [] ∨ c.enabledTypes = [] := by
  rw [expected, List.flatMap_eq_nil_iff]
  simp only [List.map_eq_nil_iff, lastBy_eq_nil]
  constructor
  · intro h
    by_cases htypes : c.enabledTypes = []
    · exact .inr htypes
    · obtain ⟨type, htype⟩ := List.exists_mem_of_ne_nil _ htypes
      exact .inl (h type htype)
  · rintro (h | h)
    · exact fun _ _ ↦ h
    · rw [h]
      nofun

/-- A run enqueues nothing when it is superseded or the hook is not there. -/
theorem run_eq_nil {iterations : List (List HookInput)} {ending : End}
    (h : ending = .superseded ∨ ¬ Registered c order) : run c order iterations ending = [] := by
  rw [run_eq]
  rcases h with h | h
  · rw [if_pos h]
  · have hbuffered (inputs : List HookInput) : buffered c order inputs = [] := by
      rw [buffered, if_neg h]
    simp only [hbuffered]
    split
    · rfl
    · exact List.flatMap_eq_nil_iff.mpr fun _ _ ↦ rfl

/-- What is right in a run with calls and a type to buffer. -/
theorem forall_typeRight_iff {early late : List Firing} (hne : early ++ late ≠ [])
    (hregistered : Registered c order) :
    (∀ type, c.enabled type = true → TypeRight c order early late type) ↔
      (∀ f ∈ early, ∃ g ∈ late, g.place = f.place) ∧
      (c.memoryEnabled = true →
        order.Precedes .repositoryContext .transcriptStaging ∨ c.context = .empty) ∧
      (c.indexingEnabled = true → ∀ f ∈ early ++ late, ∀ g ∈ early ++ late,
        f.event = g.event → f.transcriptPath = g.transcriptPath) := by
  constructor
  · intro h
    have hrepeated : ∀ f ∈ early, ∃ g ∈ late, g.place = f.place := by
      obtain hmemory | hretrospector := hregistered.1
      · exact repeated_of_typeRight (by decide) (h .memory hmemory)
      · exact repeated_of_typeRight (by decide) (h .retrospector hretrospector)
    refine ⟨hrepeated, ?_, ?_⟩
    · intro hmemory
      exact captured_eq_iff.mp ((typeRight_memory hne hrepeated).mp (h .memory hmemory))
    · intro hindexing
      exact (typeRight_indexing hrepeated).mp (h .indexing hindexing)
  · rintro ⟨hrepeated, hcontext, honePath⟩ type htype
    cases type with
    | memory => exact (typeRight_memory hne hrepeated).mpr (captured_eq_iff.mpr (hcontext htype))
    | retrospector => exact typeRight_retrospector hrepeated
    | indexing => exact (typeRight_indexing hrepeated).mpr (honePath htype)

/-- A run enqueues every job once exactly when there is none, or nothing is lost. -/
theorem enqueuedOnce_iff (c : Config) (order : BuilderOrder) (iterations : List (List HookInput))
    (ending : End) : EnqueuedOnce c order iterations ending ↔
      firings iterations = [] ∨ c.enabledTypes = [] ∨ Undisturbed c order iterations ending := by
  by_cases hlost : ending = .superseded ∨ ¬ Registered c order
  · have hnot : ¬ Undisturbed c order iterations ending := by
      intro h
      rcases hlost with hended | hregistered
      · exact h.ended hended
      · exact hregistered h.registered
    rw [EnqueuedOnce, run_eq_nil hlost, List.nil_perm, expected_eq_nil]
    simp only [hnot, or_false]
  · rw [not_or, not_not] at hlost
    obtain ⟨hended, hregistered⟩ := hlost
    have htypes : c.enabledTypes ≠ [] := by
      obtain hmemory | hretrospector := hregistered.1
      · have hmem : JobType.memory ∈ c.enabledTypes := mem_enabledTypes.mpr hmemory
        exact List.ne_nil_of_mem hmem
      · have hmem : JobType.retrospector ∈ c.enabledTypes := mem_enabledTypes.mpr hretrospector
        exact List.ne_nil_of_mem hmem
    induction iterations using List.reverseRecOn with
    | nil =>
      have hrun : run c order [] ending = [] := by
        rw [run_eq]
        split
        · rfl
        · rfl
      have hexpected : expected c [] = [] := expected_eq_nil.mpr (.inl rfl)
      rw [EnqueuedOnce, hrun, hexpected]
      exact iff_of_true (List.Perm.refl _) (.inl rfl)
    | append_singleton earlier last _ =>
      rw [enqueuedOnce_concat hended hregistered]
      by_cases hne : firings (earlier ++ [last]) = []
      · obtain ⟨hearly, hlate⟩ := List.append_eq_nil_iff.mp ((firings_append _ _).symm.trans hne)
        refine iff_of_true (fun type _ ↦ ?_) (.inl hne)
        rw [hearly, hlate]
        exact List.Perm.refl _
      · have hall : firings earlier ++ firings [last] ≠ [] := by
          rwa [← firings_append]
        rw [forall_typeRight_iff hall hregistered, ← firings_append]
        constructor
        · rintro ⟨hrepeated, hcontext, honePath⟩
          refine .inr (.inr ⟨hended, hregistered, ?_, hcontext, honePath⟩)
          rwa [List.dropLast_concat, List.getLast?_concat]
        · rintro (hnil | hnil | h)
          · exact absurd hnil hne
          · exact absurd hnil htypes
          · refine ⟨?_, h.context, h.onePath⟩
            have hrepeated := h.repeated
            rwa [List.dropLast_concat, List.getLast?_concat] at hrepeated

end Lost

/-! ### A memory job without its context -/

def loneStop : HookInput where
  event := .stop
  agentTranscriptPath := none
  transcriptPathCamelCase := none
  transcriptPath := some "/home/bot/session.jsonl"
  numTurns := some 3
  isError := some false
  durationMs := some 1000
  agentId := none
  agentType := none

def memoryOnly : Config where
  memoryEnabled := true
  retrospectorEnabled := false
  indexingEnabled := false
  langfuse := false
  repo := "owner/repo"
  workflowName := "generic"
  ref := some "main"
  context := ⟨some "# Guide", none⟩

/-- With the builder as it is configured, the memory job of a single Stop comes without the
`claude_md` that was given. -/
theorem not_enqueuedOnce :
    ¬ EnqueuedOnce memoryOnly .configureBuilder [[loneStop]] .returned := by
  unfold EnqueuedOnce
  decide

end GithubAgent.Executor.PostJobs
