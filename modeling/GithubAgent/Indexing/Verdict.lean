import GithubAgent.Base.Coroutine
import Mathlib.Logic.Function.Basic

/-!
# The verdict of an indexing job

`process_indexing_job` of `src/services/indexing_worker/indexing_worker.py` with every outcome of
what it awaits, the Redis hash of metadata it keeps by ref, and the pub/sub channel on which
`wait_for_indexing` of `src/shared/queue.py` waits for it. A command to Redis that raises may
have been executed nevertheless.

The job has exits on which nothing is published, and its two writes to Redis are each allowed to
fail with a warning.
-/

namespace GithubAgent.Indexing.Events

open GithubAgent.Base GithubAgent.Base.Coroutine

/-- How a command ends: answered, or with an exception, after the server executed it or not. -/
inductive Command where
  | answered
  | replyLost
  | notSent
  deriving DecidableEq

/-- Whether the server executes the command. -/
def Command.executed : Command → Bool
  | .notSent => false
  | _ => true

/-- What a command on a hash gives: its value, a `WRONGTYPE` error, or another exception. -/
inductive Reply (α : Type) where
  | value (a : α)
  | wrongType
  | failed

/-- An entry of the metadata hash (`indexing_worker.py:548-553`). -/
structure IndexEntry where
  indexedCommit : String
  chunkCount : Nat
  deriving DecidableEq

/-- The value of `agent:indexing:meta:{repo}`: a hash by ref, or the string of an older version.
A missing key reads as the hash without fields. -/
inductive MetaKey where
  | text (value : String)
  | hash (entries : String → Option IndexEntry)

/-- The `status` of an event on `agent:indexing:events`. -/
inductive IndexingStatus where
  | complete
  | error
  deriving DecidableEq

/-- An event on `agent:indexing:events`. -/
structure IndexingEvent where
  status : IndexingStatus
  repo : String
  ref : String
  deriving DecidableEq

/-- Redis: the metadata by repository, the events published so far, and the repository and ref
of every caller that is subscribed and waits. -/
structure IndexServer where
  metadata : String → MetaKey
  events : List IndexingEvent
  waiting : List (String × String)

namespace IndexServer

/-- What `_listen_for_completion` returns on, whatever the status (`queue.py:413-427`). -/
def endsWait (event : IndexingEvent) (caller : String × String) : Bool :=
  event.repo = caller.1 && event.ref = caller.2

/-- `PUBLISH`: every subscribed caller sees the event. -/
def publish (s : IndexServer) (event : IndexingEvent) : IndexServer :=
  { s with
    events := s.events ++ [event]
    waiting := s.waiting.filter fun caller ↦ !endsWait event caller }

/-- The field of the hash. -/
def entry (s : IndexServer) (repo ref : String) : Option IndexEntry :=
  match s.metadata repo with
  | .text _ => none
  | .hash entries => entries ref

/-- `wait_for_indexing` up to its subscription: a caller that finds an entry returns at once
(`queue.py:388-404`). -/
def waitForIndexing (s : IndexServer) (repo ref : String) : IndexServer :=
  if (s.entry repo ref).isSome then s else { s with waiting := s.waiting ++ [(repo, ref)] }

/-- The server with another value of the key. -/
def setMeta (s : IndexServer) (repo : String) (key : MetaKey) : IndexServer :=
  { s with metadata := Function.update s.metadata repo key }

end IndexServer

/-- An indexing message; `ref` may be missing. -/
structure IndexingMessage where
  repo : Option String
  ref : Option String

/-- What a job meets. `none` in place of a result is an exception; a worktree that could not be
created is `some none`. The commands are those of `_get_previous_commit`,
`_update_indexing_metadata` and `_publish_indexing_event`, in this order. -/
structure Outcomes where
  redisClient : Bool
  geminiApiKey : Bool
  schemaRaises : Bool
  worktree : Option (Option String)
  commitHash : Option String
  changedFiles : List String
  removedFiles : List String
  graphRaises : Bool
  routesRaises : Bool
  chunks : Option Nat
  embedRaises : Bool
  upserted : Option Nat
  readMeta : Command
  readMigrate : Command
  writeMeta : Command
  writeMigrate : Command
  writeAgain : Command
  publish : Command

section Job

/-- `HGET`. -/
def hget (c : Command) (repo ref : String) :
    Coroutine IndexServer (Reply (Option IndexEntry)) := fun s ↦
  match c, s.metadata repo with
  | .answered, .hash entries => (some (.value (entries ref)), s)
  | .answered, .text _ => (some .wrongType, s)
  | _, _ => (some .failed, s)

/-- `HSET`. -/
def hset (c : Command) (repo ref : String) (entry : IndexEntry) :
    Coroutine IndexServer (Reply PUnit) := fun s ↦
  match s.metadata repo with
  | .text _ => (some (if c = .answered then .wrongType else .failed), s)
  | .hash entries =>
    (some (if c = .answered then .value ⟨⟩ else .failed),
      if c.executed then s.setMeta repo (.hash (Function.update entries ref (some entry))) else s)

/-- `_migrate_meta_key` (`indexing_worker.py:472-478`). -/
def migrateMetaKey (c : Command) (repo : String) : Coroutine IndexServer PUnit :=
  effect fun s ↦ if c.executed then s.setMeta repo (.hash fun _ ↦ none) else s

variable (o : Outcomes)

/-- `_get_previous_commit` (`indexing_worker.py:481-497`). -/
def getPreviousCommit (repo ref : String) : Coroutine IndexServer (Option String) :=
  if o.redisClient then do
    match ← hget o.readMeta repo ref with
    | .value entry => pure ((entry.map (·.indexedCommit)).filter (· ≠ ""))
    | .wrongType =>
      migrateMetaKey o.readMigrate repo
      pure none
    | .failed => pure none
  else pure none

/-- The handler of `WRONGTYPE` in `_update_indexing_metadata`; an exception of its `HSET` goes on
(`indexing_worker.py:557-559`). -/
def rewriteIndexingMetadata (repo ref : String) (entry : IndexEntry) :
    Coroutine IndexServer PUnit := do
  migrateMetaKey o.writeMigrate repo
  match ← hset o.writeAgain repo ref entry with
  | .value _ => pure ⟨⟩
  | _ => raise

/-- `_update_indexing_metadata` (`indexing_worker.py:537-561`). -/
def updateIndexingMetadata (repo commitHash : String) (chunkCount : Nat) (ref : String) :
    Coroutine IndexServer PUnit :=
  if o.redisClient then do
    match ← hset o.writeMeta repo ref ⟨commitHash, chunkCount⟩ with
    | .value _ => pure ⟨⟩
    | .wrongType => rewriteIndexingMetadata o repo ref ⟨commitHash, chunkCount⟩
    | .failed => pure ⟨⟩
  else pure ⟨⟩

/-- `_publish_indexing_event` (`indexing_worker.py:572-584`). -/
def publishIndexingEvent (repo ref : String) (status : IndexingStatus) :
    Coroutine IndexServer PUnit :=
  effect fun s ↦
    if o.redisClient && o.publish.executed then s.publish ⟨status, repo, ref⟩ else s

/-- The commits differ and git finds no file that changed or went away
(`indexing_worker.py:638-656`). -/
def Outcomes.unchanged (previous : Option String) (commitHash : String) : Bool :=
  previous.any (· ≠ commitHash) && o.changedFiles.isEmpty && o.removedFiles.isEmpty

/-- The metadata and the event at the end (`indexing_worker.py:654-655`, `:707-710`). -/
def complete (repo commitHash : String) (chunkCount : Nat) (ref : String) :
    Coroutine IndexServer PUnit := do
  updateIndexingMetadata o repo commitHash chunkCount ref
  publishIndexingEvent o repo ref .complete

/-- The work, once it is known what changed (`indexing_worker.py:666-710`). -/
def indexChanged (repo commitHash ref : String) : Coroutine IndexServer PUnit := do
  swallow (await o.graphRaises)
  swallow (await o.routesRaises)
  match ← call o.chunks with
  | 0 => pure ⟨⟩
  | _ + 1 =>
    await o.embedRaises
    let count ← call o.upserted
    complete o repo commitHash count ref

/-- The part inside the `try` (`indexing_worker.py:616-712`). -/
def indexWorktree (repo ref : String) : Coroutine IndexServer PUnit := do
  match ← call o.worktree with
  | none => pure ⟨⟩
  | some _ =>
    match o.commitHash with
    | none => pure ⟨⟩
    | some commitHash =>
      let previous ← getPreviousCommit o repo ref
      if o.unchanged previous commitHash then complete o repo commitHash 0 ref
      else indexChanged o repo commitHash ref

/-- `process_indexing_job`; removing the worktree at the end raises nothing
(`indexing_worker.py:592-719`). -/
def processIndexingJob (message : IndexingMessage) : Coroutine IndexServer PUnit :=
  match message.repo.filter (· ≠ "") with
  | none => pure ⟨⟩
  | some repo =>
    let ref := message.ref.getD "main"
    if o.geminiApiKey then do
      await o.schemaRaises
      (indexWorktree o repo ref).orElse (publishIndexingEvent o repo ref .error)
    else pure ⟨⟩

end Job

/-! ### The verdict -/

/-- The job left exactly one event, it is about the repository and ref, no caller that was
subscribed still waits, and a complete ref has its entry. -/
def Verdict (repo ref : String) (s s' : IndexServer) : Prop :=
  ∃ status, s'.events = s.events ++ [⟨status, repo, ref⟩] ∧ (repo, ref) ∉ s'.waiting ∧
    (status = .complete → (s'.entry repo ref).isSome)

namespace Outcomes

variable (o : Outcomes) (s : IndexServer) (repo ref : String)

/-- The commit that the read of the metadata gives. -/
def previousCommit : Option String :=
  if o.readMeta = .answered then ((s.entry repo ref).map (·.indexedCommit)).filter (· ≠ "")
  else none

/-- The ref has an entry already, or the write of one is executed. A string under the key is in
the way until the read, or else the refused write, has deleted it. -/
def EntryLands : Prop :=
  match s.metadata repo with
  | .hash entries => (entries ref).isSome ∨ o.writeMeta.executed
  | .text _ =>
    if o.readMeta = .answered ∧ o.readMigrate.executed then o.writeMeta.executed
    else o.writeMeta = .answered

/-- The job gets past its exits: the worktree attempt raised, or there are a worktree and a
commit, something to chunk where something changed, and an entry where the work is done. -/
def PassesExits : Prop :=
  match o.worktree, o.commitHash with
  | none, _ => True
  | some none, _ => False
  | some (some _), none => False
  | some (some _), some commitHash =>
    let unchanged := o.unchanged (o.previousCommit s repo ref) commitHash
    (unchanged = false → o.chunks ≠ some 0) ∧
      (unchanged = true ∨ o.chunks.isSome ∧ o.embedRaises = false ∧ o.upserted.isSome →
        o.EntryLands s repo ref)

/-- The job starts, and Redis executes its publish. -/
def Announces : Prop :=
  o.redisClient = true ∧ o.geminiApiKey = true ∧ o.schemaRaises = false ∧
    o.publish.executed = true

end Outcomes

section Verdict

variable {o : Outcomes} {s t : IndexServer} {repo ref commitHash : String}

@[simp] theorem setMeta_metadata (key : MetaKey) : (s.setMeta repo key).metadata repo = key :=
  Function.update_self _ _ _

@[simp] theorem entry_setMeta_hash (entries : String → Option IndexEntry) :
    (s.setMeta repo (.hash entries)).entry repo ref = entries ref := by
  simp [IndexServer.entry]

/-- What publishing an event settles. -/
theorem not_mem_waiting_publish (status : IndexingStatus) :
    (repo, ref) ∉ (s.publish ⟨status, repo, ref⟩).waiting := by
  simp [IndexServer.publish, IndexServer.endsWait]

/-- Two states that differ in the metadata at most. -/
def SameEvents (s t : IndexServer) : Prop := t.events = s.events ∧ t.waiting = s.waiting

/-- Without a new event there is no verdict. -/
theorem SameEvents.not_verdict (h : SameEvents s t) : ¬ Verdict repo ref s t := by
  rintro ⟨status, hevents, -⟩
  rw [h.1] at hevents
  simp at hevents

/-- One published event is a verdict, unless it calls a ref complete that has no entry. -/
theorem SameEvents.verdict_publish (h : SameEvents s t) (status : IndexingStatus) :
    Verdict repo ref s (t.publish ⟨status, repo, ref⟩) ↔
      (status = .complete → (t.entry repo ref).isSome) := by
  constructor
  · rintro ⟨status', hevents, -, hentry⟩
    have hstatus : status = status' := by
      simpa [IndexServer.publish, h.1] using hevents
    exact fun hcomplete ↦ hentry (hstatus ▸ hcomplete)
  · intro hentry
    exact ⟨status, by rw [← h.1]; rfl, not_mem_waiting_publish status, hentry⟩

/-- What an event amounts to: a verdict where Redis executes the publish, unless it calls a ref
complete that has no entry. -/
theorem SameEvents.verdict_event (h : SameEvents s t) (hclient : o.redisClient = true)
    (status : IndexingStatus) :
    Verdict repo ref s (publishIndexingEvent o repo ref status t).2 ↔
      o.publish.executed = true ∧ (status = .complete → (t.entry repo ref).isSome) := by
  cases hpublish : o.publish.executed with
  | false => simpa [publishIndexingEvent, hclient, hpublish] using h.not_verdict
  | true => simpa [publishIndexingEvent, hclient, hpublish] using h.verdict_publish status

/-- The write of the entry from the state it meets: it lands, or it is given up with a warning
although the key is a string. -/
def Outcomes.WriteLands (o : Outcomes) (t : IndexServer) (repo ref : String) : Prop :=
  match t.metadata repo with
  | .hash entries => (entries ref).isSome ∨ o.writeMeta.executed
  | .text _ => o.writeMeta = .answered

/-- `HSET` on a hash. -/
theorem hset_hash {entries : String → Option IndexEntry} (hkey : t.metadata repo = .hash entries)
    (c : Command) (entry : IndexEntry) :
    hset c repo ref entry t = (some (if c = .answered then .value ⟨⟩ else .failed),
      if c.executed then t.setMeta repo (.hash (Function.update entries ref (some entry)))
      else t) := by
  simp [hset, hkey]

/-- `HSET` on a string. -/
theorem hset_text {value : String} (hkey : t.metadata repo = .text value) (c : Command)
    (entry : IndexEntry) :
    hset c repo ref entry t = (some (if c = .answered then .wrongType else .failed), t) := by
  simp [hset, hkey]

/-- `HSET` raises, or leaves an entry. -/
theorem hset_entry (t : IndexServer) (repo ref : String) (c : Command) (entry : IndexEntry) :
    (∃ reply, (hset c repo ref entry t).1 = some reply ∧ reply ≠ .value ⟨⟩) ∨
      (hset c repo ref entry t).1 = some (.value ⟨⟩) ∧
        ((hset c repo ref entry t).2.entry repo ref).isSome := by
  cases hkey : t.metadata repo with
  | text value => cases c <;> simp [hset_text hkey]
  | hash entries => cases c <;> simp [hset_hash hkey, Command.executed]

theorem SameEvents.setMeta (h : SameEvents s t) (key : MetaKey) :
    SameEvents s (t.setMeta repo key) := h

theorem SameEvents.migrate (h : SameEvents s t) (repo : String) (c : Command) :
    SameEvents s (migrateMetaKey c repo t).2 := by
  cases c <;> exact h

theorem hset_sameEvents (h : SameEvents s t) (repo ref : String) (c : Command)
    (entry : IndexEntry) :
    SameEvents s (hset c repo ref entry t).2 := by
  cases hkey : t.metadata repo with
  | text value => simpa [hset_text hkey] using h
  | hash entries =>
    rw [hset_hash hkey]
    cases c <;> exact h

/-- The handler raises or leaves an entry, and publishes nothing. -/
theorem rewriteIndexingMetadata_spec (h : SameEvents s t) (entry : IndexEntry) :
    SameEvents s (rewriteIndexingMetadata o repo ref entry t).2 ∧
      ((rewriteIndexingMetadata o repo ref entry t).1 = none ∨
        ((rewriteIndexingMetadata o repo ref entry t).2.entry repo ref).isSome) := by
  have hmigrated := h.migrate repo o.writeMigrate
  have hsame := hset_sameEvents hmigrated repo ref o.writeAgain entry
  have hentry := hset_entry (migrateMetaKey o.writeMigrate repo t).2 repo ref o.writeAgain entry
  have hrun : rewriteIndexingMetadata o repo ref entry t =
      match hset o.writeAgain repo ref entry (migrateMetaKey o.writeMigrate repo t).2 with
      | (some (.value _), u) => (some ⟨⟩, u)
      | (some .wrongType, u) | (some .failed, u) | (none, u) => (none, u) := by
    simp only [rewriteIndexingMetadata, bind_apply, migrateMetaKey, effect_apply]
    rcases hset o.writeAgain repo ref entry _ with ⟨_ | _ | _ | _, u⟩ <;> rfl
  rw [hrun]
  generalize hset o.writeAgain repo ref entry (migrateMetaKey o.writeMigrate repo t).2 = r
    at hsame hentry ⊢
  obtain ⟨reply, u⟩ := r
  rcases hentry with ⟨reply', rfl, hne⟩ | ⟨rfl, hsome⟩
  · cases reply' with
    | value done => exact absurd rfl hne
    | wrongType => exact ⟨hsame, .inl rfl⟩
    | failed => exact ⟨hsame, .inl rfl⟩
  · exact ⟨hsame, .inr hsome⟩

/-- The write raises or leaves an entry exactly when it lands, and publishes nothing. -/
theorem updateIndexingMetadata_spec (hclient : o.redisClient = true) (h : SameEvents s t)
    (repo commitHash ref : String) (count : Nat) :
    SameEvents s (updateIndexingMetadata o repo commitHash count ref t).2 ∧
      ((updateIndexingMetadata o repo commitHash count ref t).1 = none ∨
        ((updateIndexingMetadata o repo commitHash count ref t).2.entry repo ref).isSome ↔
          o.WriteLands t repo ref) := by
  unfold updateIndexingMetadata Outcomes.WriteLands
  rw [if_pos hclient]
  cases hkey : t.metadata repo with
  | hash entries =>
    cases o.writeMeta <;>
      simp [bind_apply, hset_hash hkey, Command.executed, IndexServer.entry, hkey, h.setMeta, h]
  | text value =>
    -- only a refused write reaches the handler; any other exception is a warning
    cases o.writeMeta with
    | answered =>
      simpa [bind_apply, hset_text hkey] using rewriteIndexingMetadata_spec h ⟨commitHash, count⟩
    | replyLost => simp [bind_apply, hset_text hkey, IndexServer.entry, hkey, h]
    | notSent => simp [bind_apply, hset_text hkey, IndexServer.entry, hkey, h]

/-- The end of a job that did its work, with the handler around it. -/
theorem complete_verdict (hclient : o.redisClient = true) (h : SameEvents s t) (count : Nat) :
    Verdict repo ref s
        (((complete o repo commitHash count ref).orElse
          (publishIndexingEvent o repo ref .error)) t).2 ↔
      o.publish.executed = true ∧ o.WriteLands t repo ref := by
  obtain ⟨hsame, hentry⟩ :=
    updateIndexingMetadata_spec hclient h repo commitHash ref count
  have hrun : ((complete o repo commitHash count ref).orElse
      (publishIndexingEvent o repo ref .error)) t =
      match updateIndexingMetadata o repo commitHash count ref t with
      | (some _, u) => publishIndexingEvent o repo ref .complete u
      | (none, u) => publishIndexingEvent o repo ref .error u := by
    simp only [Coroutine.orElse, complete, bind_apply]
    rcases updateIndexingMetadata o repo commitHash count ref t with ⟨_ | _, u⟩ <;> rfl
  rw [hrun]
  generalize updateIndexingMetadata o repo commitHash count ref t = r at hsame hentry ⊢
  obtain ⟨_ | _, u⟩ := r
  · simpa [← hentry] using hsame.verdict_event hclient .error
  · simpa [← hentry] using hsame.verdict_event hclient .complete

/-- The state after the read of the metadata. -/
def Outcomes.afterRead (o : Outcomes) (s : IndexServer) (repo : String) : IndexServer :=
  match o.readMeta, s.metadata repo with
  | .answered, .text _ => (migrateMetaKey o.readMigrate repo s).2
  | _, _ => s

theorem getPreviousCommit_apply (hclient : o.redisClient = true) (s : IndexServer)
    (repo ref : String) :
    getPreviousCommit o repo ref s = (some (o.previousCommit s repo ref), o.afterRead s repo) := by
  cases hread : o.readMeta <;> cases hkey : s.metadata repo <;>
    simp [getPreviousCommit, hclient, bind_apply, hget, hread, hkey, Outcomes.previousCommit,
      Outcomes.afterRead, IndexServer.entry, migrateMetaKey]

theorem afterRead_sameEvents : SameEvents s (o.afterRead s repo) := by
  unfold Outcomes.afterRead
  split
  · exact SameEvents.migrate ⟨rfl, rfl⟩ repo o.readMigrate
  · exact ⟨rfl, rfl⟩

/-- Where the read has deleted the string, the write meets a hash without fields. -/
theorem writeLands_afterRead :
    o.WriteLands (o.afterRead s repo) repo ref ↔ o.EntryLands s repo ref := by
  unfold Outcomes.WriteLands Outcomes.EntryLands Outcomes.afterRead
  cases hread : o.readMeta <;> cases hkey : s.metadata repo <;>
    cases hmigrate : o.readMigrate <;> simp [migrateMetaKey, Command.executed, hkey]

/-- The work raises, or finds nothing to chunk, or comes to its end. -/
theorem indexChanged_verdict (hclient : o.redisClient = true) (h : SameEvents s t) :
    Verdict repo ref s
        (((indexChanged o repo commitHash ref).orElse
          (publishIndexingEvent o repo ref .error)) t).2 ↔
      o.publish.executed = true ∧ o.chunks ≠ some 0 ∧
        (o.chunks.isSome ∧ o.embedRaises = false ∧ o.upserted.isSome →
          o.WriteLands t repo ref) := by
  rcases hchunks : o.chunks with _ | _ | n
  · rw [orElse_of_none (t := t) _ (by simp [indexChanged, hchunks])]
    simpa using h.verdict_event hclient .error
  · rw [orElse_of_some (a := ⟨⟩) (t := t) _ (by simp [indexChanged, hchunks])]
    simpa using h.not_verdict
  cases hembed : o.embedRaises with
  | true =>
    rw [orElse_of_none (t := t) _ (by simp [indexChanged, hchunks, hembed])]
    simpa using h.verdict_event hclient .error
  | false =>
    cases hupserted : o.upserted with
    | none =>
      rw [orElse_of_none (t := t) _ (by simp [indexChanged, hchunks, hembed, hupserted])]
      simpa using h.verdict_event hclient .error
    | some count =>
      rw [orElse_congr (y := complete o repo commitHash count ref) (t := t) _
        (by simp [indexChanged, hchunks, hembed, hupserted])]
      simpa using complete_verdict hclient h count

/-- The part inside the `try`, with its handler. -/
theorem indexWorktree_verdict (hclient : o.redisClient = true) :
    Verdict repo ref s
        (((indexWorktree o repo ref).orElse (publishIndexingEvent o repo ref .error)) s).2 ↔
      o.publish.executed = true ∧ o.PassesExits s repo ref := by
  have hsame : SameEvents s s := ⟨rfl, rfl⟩
  have hread : SameEvents s (o.afterRead s repo) := afterRead_sameEvents
  have hprevious := getPreviousCommit_apply hclient s repo ref
  unfold Outcomes.PassesExits
  rcases hworktree : o.worktree with _ | _ | path
  · rw [orElse_of_none (t := s) _ (by simp [indexWorktree, hworktree])]
    simpa using hsame.verdict_event hclient .error
  · rw [orElse_of_some (a := ⟨⟩) (t := s) _ (by simp [indexWorktree, hworktree])]
    simpa using hsame.not_verdict
  cases hcommit : o.commitHash with
  | none =>
    rw [orElse_of_some (a := ⟨⟩) (t := s) _ (by simp [indexWorktree, hworktree, hcommit])]
    simpa using hsame.not_verdict
  | some commitHash =>
    cases hunchanged : o.unchanged (o.previousCommit s repo ref) commitHash with
    | true =>
      rw [orElse_congr (y := complete o repo commitHash 0 ref) (t := o.afterRead s repo) _
        (by simp [indexWorktree, hworktree, hcommit, bind_of_some hprevious, hunchanged]),
        complete_verdict hclient hread, writeLands_afterRead]
      simp [hunchanged]
    | false =>
      rw [orElse_congr (y := indexChanged o repo commitHash ref) (t := o.afterRead s repo) _
        (by simp [indexWorktree, hworktree, hcommit, bind_of_some hprevious, hunchanged]),
        indexChanged_verdict hclient hread, writeLands_afterRead]
      simp [hunchanged]

/-- Without a client the job touches nothing on Redis. -/
theorem indexWorktree_without_client (hclient : o.redisClient = false) (s : IndexServer)
    (repo ref : String) :
    ((indexWorktree o repo ref).orElse (publishIndexingEvent o repo ref .error) s).2 = s := by
  have refl : ∀ u : IndexServer, u = u := fun _ ↦ rfl
  have trans : ∀ u v w : IndexServer, u = v → v = w → u = w := fun _ _ _ ↦ Eq.trans
  have hpublish (status : IndexingStatus) :
      Within Eq (publishIndexingEvent o repo ref status) := by
    intro u
    simp [publishIndexingEvent, hclient]
  have hcomplete (commitHash : String) (count : Nat) :
      Within Eq (complete o repo commitHash count ref) := by
    refine .bind trans ?_ fun _ ↦ hpublish .complete
    simpa [updateIndexingMetadata, hclient] using Within.pure refl PUnit.unit
  have hchanged (commitHash : String) :
      Within Eq (indexChanged o repo commitHash ref) := by
    refine .bind trans (.swallow (.await refl _)) fun _ ↦
      .bind trans (.swallow (.await refl _)) fun _ ↦ .bind trans (.call refl _) fun chunks ↦ ?_
    cases chunks with
    | zero => exact .pure refl _
    | succ n =>
      exact .bind trans (.await refl _) fun _ ↦ .bind trans (.call refl _) fun count ↦
        hcomplete commitHash count
  have hbody : Within Eq (indexWorktree o repo ref) := by
    refine .bind trans (.call refl _) fun worktree ↦ ?_
    cases worktree with
    | none => exact .pure refl _
    | some path =>
      cases o.commitHash with
      | none => exact .pure refl _
      | some commitHash =>
        refine .bind trans ?_ fun previous ↦
          .ite _ (hcomplete commitHash 0) (hchanged commitHash)
        simpa [getPreviousCommit, hclient] using Within.pure refl none
  exact ((hbody.orElse trans (hpublish .error)) s).symm

/-- The verdict of an indexing job is published, once and with the metadata it promises, exactly
when the job starts, gets past its exits, and Redis executes the publish. -/
theorem processIndexingJob_verdict_iff (message : IndexingMessage)
    (hrepo : message.repo = some repo) (hne : repo ≠ "") :
    Verdict repo (message.ref.getD "main") s (processIndexingJob o message s).2 ↔
      o.Announces ∧ o.PassesExits s repo (message.ref.getD "main") := by
  have hsame : SameEvents s s := ⟨rfl, rfl⟩
  have hfilter : message.repo.filter (· ≠ "") = some repo := by simp [hrepo, Option.filter, hne]
  unfold processIndexingJob Outcomes.Announces
  simp only [hfilter]
  cases hkey : o.geminiApiKey with
  | false => simpa using hsame.not_verdict
  | true =>
    cases hschema : o.schemaRaises with
    | true => simpa using hsame.not_verdict
    | false =>
      cases hclient : o.redisClient with
      | true => simpa [and_assoc] using indexWorktree_verdict hclient
      | false =>
        have hnone := indexWorktree_without_client hclient s repo (message.ref.getD "main")
        simpa [hnone] using hsame.not_verdict

/-- A caller that comes after the event of a complete job does not wait. -/
theorem waitForIndexing_of_complete {s' : IndexServer} (h : Verdict repo ref s s')
    (hcomplete : s'.events.getLast? = some ⟨.complete, repo, ref⟩) :
    s'.waitForIndexing repo ref = s' := by
  obtain ⟨status, hevents, -, hentry⟩ := h
  rw [hevents, List.getLast?_concat, Option.some.injEq] at hcomplete
  injection hcomplete with hstatus
  simp [IndexServer.waitForIndexing, hentry hstatus]

end Verdict

/-! ### A job that goes through, and one with nothing to chunk -/

/-- Every step succeeds, and the repository has as many chunks as given. -/
def smoothOutcomes (chunks : Nat) : Outcomes where
  redisClient := true
  geminiApiKey := true
  schemaRaises := false
  worktree := some (some "/tmp/idx_o_r_0")
  commitHash := some "c0"
  changedFiles := []
  removedFiles := []
  graphRaises := false
  routesRaises := false
  chunks := some chunks
  embedRaises := false
  upserted := some chunks
  readMeta := .answered
  readMigrate := .answered
  writeMeta := .answered
  writeMigrate := .answered
  writeAgain := .answered
  publish := .answered

/-- Nothing is indexed yet, and one caller waits. -/
def oneWaiting : IndexServer := ⟨fun _ ↦ .hash fun _ ↦ none, [], [("o/r", "main")]⟩

theorem smooth_verdict :
    Verdict "o/r" "main" oneWaiting
      (processIndexingJob (smoothOutcomes 1) ⟨some "o/r", some "main"⟩ oneWaiting).2 :=
  (processIndexingJob_verdict_iff ⟨some "o/r", some "main"⟩ rfl (by decide)).mpr
    ⟨⟨rfl, rfl, rfl, rfl⟩, fun _ ↦ by decide, fun _ ↦ .inr rfl⟩

/-- A repository without chunks: the job returns, no event is published, and the caller that
waited still waits. -/
theorem no_verdict_without_chunks :
    ¬ ∀ (o : Outcomes) (message : IndexingMessage) (s : IndexServer) (repo : String),
      message.repo = some repo → repo ≠ "" →
        Verdict repo (message.ref.getD "main") s (processIndexingJob o message s).2 := by
  intro h
  obtain ⟨status, hevents, -⟩ :=
    h (smoothOutcomes 0) ⟨some "o/r", some "main"⟩ oneWaiting "o/r" rfl (by decide)
  exact absurd hevents (List.cons_ne_nil _ _).symm

end GithubAgent.Indexing.Events
