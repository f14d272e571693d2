import GithubAgent.Base.Transition
import GithubAgent.Session.Records

/-!
# Whole records with an expiry

`save_session` and `create_session` write all the fields of a record and an expiry. The seven
updates write a field of whatever is there: under a key that has expired they leave a hash with
one or two fields, which stays for ever unless the update sets an expiry itself.
-/

namespace GithubAgent.Session

open GithubAgent.Base GithubAgent.Shared

namespace Hash

variable {h : Hash} {field value other : String}

theorem hset_isSome : (h.hset field value other).isSome ↔ other = field ∨ (h other).isSome := by
  unfold hset
  by_cases hother : other = field
  · simp [hother]
  · simp [hother]

/-- Fields are only added. -/
def Grows (h h' : Hash) : Prop := ∀ field, (h field).isSome → (h' field).isSome

theorem Grows.refl (h : Hash) : Grows h h := fun _ hfield ↦ hfield

theorem Grows.trans {h h' h'' : Hash} (hfst : Grows h h') (hsnd : Grows h' h'') : Grows h h'' :=
  fun field hfield ↦ hsnd field (hfst field hfield)

theorem grows_hset (h : Hash) (field value : String) : Grows h (h.hset field value) :=
  fun _ hother ↦ hset_isSome.mpr (.inr hother)

theorem grows_hsetAll (h : Hash) (mapping : List (String × String)) :
    Grows h (h.hsetAll mapping) := by
  induction mapping generalizing h with
  | nil => exact .refl h
  | cons entry rest ih => exact (grows_hset h entry.1 entry.2).trans (ih _)

theorem grows_hsetGiven (h : Hash) (field : String) (value : Option String) :
    Grows h (h.hsetGiven field value) := by
  cases value with
  | none => exact .refl h
  | some value => exact grows_hset h field value

theorem grows_hsetnx (h : Hash) (field value : String) : Grows h (h.hsetnx field value) := by
  unfold hsetnx
  split
  · exact .refl h
  · exact grows_hset h field value

theorem grows_hincrby {h h' : Hash} {n : Int} (hincr : h.hincrby field n = some h') :
    Grows h h' := by
  obtain ⟨old, -, rfl⟩ := Option.map_eq_some_iff.mp hincr
  exact grows_hset h field _

/-- A mapping leaves all its fields. -/
theorem hsetAll_isSome {mapping : List (String × String)} (hmem : field ∈ mapping.map Prod.fst) :
    (h.hsetAll mapping field).isSome := by
  induction mapping generalizing h with
  | nil => cases hmem
  | cons entry rest ih =>
    rcases List.mem_cons.mp hmem with rfl | hmem
    · exact grows_hsetAll _ rest _ (hset_isSome.mpr (.inl rfl))
    · exact ih hmem

theorem hsetnx_isSome : (h.hsetnx field value field).isSome := by
  unfold hsetnx
  split
  · assumption
  · exact hset_isSome.mpr (.inl rfl)

/-- All of the given fields are there. -/
def Whole (fields : List String) (h : Hash) : Prop := ∀ field ∈ fields, (h field).isSome

theorem Grows.whole {fields : List String} {h h' : Hash} (hgrows : Grows h h')
    (hwhole : Whole fields h) : Whole fields h' :=
  fun field hmem ↦ hgrows field (hwhole field hmem)

end Hash

open Hash

/-- Every existing hash has an expiry and the given fields. -/
def Kept (fields : List String) (m : Keys String Hash) (now : Nat) : Prop :=
  ∀ key cell, m key = some cell → cell.live now = true →
    cell.deadline ≠ none ∧ Whole fields cell.value

namespace Kept

variable {fields : List String} {m : Keys String Hash} {now : Nat} {key : String}

theorem empty : Kept fields .empty now := by
  intro key cell hcell
  cases hcell

theorem mono {later : Nat} (h : Kept fields m now) (hle : now ≤ later) : Kept fields m later :=
  fun key cell hcell hlive ↦ h key cell hcell (Cell.live_of_le hle hlive)

/-- A change of one key is a matter of that key. -/
theorem of_eq {m' : Keys String Hash} (h : Kept fields m now)
    (hother : ∀ other, other ≠ key → m' other = m other)
    (hself : ∀ cell, m' key = some cell → cell.live now = true →
      cell.deadline ≠ none ∧ Whole fields cell.value) : Kept fields m' now := by
  intro other cell hcell hlive
  by_cases hkey : other = key
  · subst hkey
    exact hself cell hcell hlive
  · exact h other cell (hother other hkey ▸ hcell) hlive

theorem setex (h : Kept fields m now) {value : Hash} (hvalue : Whole fields value)
    (seconds : Nat) : Kept fields (m.setex now key seconds value) now := by
  refine h.of_eq (fun other hne ↦ Keys.setex_apply_of_ne m now hne seconds value) ?_
  intro cell hcell _
  rw [Keys.setex_apply_self] at hcell
  cases hcell
  exact ⟨Option.some_ne_none _, hvalue⟩

theorem del (h : Kept fields m now) : Kept fields (m.del key) now := by
  refine h.of_eq (fun other hne ↦ Keys.del_apply_of_ne m hne) ?_
  intro cell hcell
  simp [Keys.del] at hcell

/-- What is read is whole. -/
theorem whole (h : Kept fields m now) {value : Hash} (hget : m.get now key = some value) :
    Whole fields value := by
  obtain ⟨d, hcell, hlive⟩ := Keys.get_eq_some.mp hget
  exact (h key _ hcell hlive).2

theorem expire (h : Kept fields m now) (seconds : Nat) :
    Kept fields (m.expire now key seconds) now := by
  cases hget : m.get now key with
  | none => rwa [Keys.expire_of_none hget]
  | some value =>
    rw [Keys.expire_of_some hget]
    exact h.setex (h.whole hget) seconds

/-- A write into a record that is there. -/
theorem modify (h : Kept fields m now) {value : Hash} (hget : m.get now key = some value)
    {f : Option Hash → Hash} (hf : Whole fields (f (some value))) :
    Kept fields (m.modify now key f) now := by
  refine h.of_eq (fun other hne ↦ Keys.modify_apply_of_ne m now hne f) ?_
  intro cell hcell _
  obtain ⟨d, hkey, hlive⟩ := Keys.get_eq_some.mp hget
  have hhas : m.has now key = true := by simp [Keys.has, hget]
  rw [Keys.modify_apply_self, hhas, hget] at hcell
  cases hcell
  refine ⟨?_, hf⟩
  simpa [hkey] using (h key _ hkey hlive).1

/-- A write under a key that does not exist leaves a record without expiry. -/
theorem not_modify (hget : m.get now key = none) (f : Option Hash → Hash) :
    ¬ Kept fields (m.modify now key f) now := by
  intro h
  have hhas : m.has now key = false := by simp [Keys.has, hget]
  refine (h key _ (Keys.modify_apply_self m now key f) ?_).1 ?_ <;> simp [hhas, Cell.live]

end Kept

/-! ### The operations -/

/-- The fields that `save_session` always writes. -/
def sessionFields : List String :=
  ["session_id", "repo", "thread_type", "thread_id", "workflow_name", "ref", "worktree_path",
    "last_run", "status", "created_at"]

/-- The fields that `create_session` writes. -/
def streamFields : List String :=
  ["token", "repo", "issue_number", "workflow", "session_proxy_url", "status", "installation_id",
    "initial_query", "thread_type", "ref", "user", "conversation_config", "session_id",
    "transcript_path", "run_count"]

/-- Every existing record of the two stores has an expiry and is whole. -/
structure Records.WellKept (r : Records) (now : Nat) : Prop where
  sessions : Kept sessionFields r.sessions now
  streams : Kept streamFields r.streams now

/-- An update finds the record it updates. (`set_running` with an expiry of zero deletes what it
writes.) -/
def Operation.FindsRecord (r : Records) (now : Nat) : Operation → Prop
  | .updateSummary key _ | .incrementTurnCount key _ _ =>
    r.sessions.has now (Records.sessionKeyOf key) = true
  | .setRunning token ttlSeconds => ttlSeconds ≠ 0 → r.streams.has now token = true
  | .setCompleted token _ _ | .updateSessionId token _ | .updateTranscriptPath token _
  | .incrementRunCount token => r.streams.has now token = true
  | _ => True

section Operations

variable {r : Records} {now : Nat} {key : WorktreeKey} {token : String}

theorem savedFields_whole (key : WorktreeKey) (saved : Records.SavedSession) (time : String)
    (stored : Hash) :
    Whole sessionFields (Records.savedFields key saved time stored) := by
  intro field hmem
  by_cases hcreated : field = "created_at"
  · subst hcreated
    exact hsetnx_isSome
  · refine grows_hsetnx _ _ _ _ (hsetAll_isSome ?_)
    simpa [sessionFields, hcreated] using hmem

theorem savedRest_grows {saved : Records.SavedSession} {h h' : Hash}
    (hrest : Records.savedRest saved h = some h') : Grows h h' := by
  obtain ⟨counted, hcounted, rfl⟩ := Option.map_eq_some_iff.mp hrest
  have hcount : Grows h counted := by
    split at hcounted
    · cases hcounted
      exact .refl h
    · exact grows_hincrby hcounted
  exact (hcount.trans (grows_hsetGiven _ _ _)).trans (grows_hsetGiven _ _ _)

/-- The fixed fields touch no other. -/
theorem savedFields_apply_of_not_mem {field : String} (hfield : field ∉ sessionFields)
    (key : WorktreeKey) (saved : Records.SavedSession) (time : String) (stored : Hash) :
    Records.savedFields key saved time stored field = stored field := by
  simp only [sessionFields, List.mem_cons, List.not_mem_nil, or_false, not_or] at hfield
  unfold Records.savedFields hsetnx
  split <;> simp [hsetAll, hset, hfield]

/-- `save_session` sets the record anew; the error of `HINCRBY` only meets one that was there. -/
theorem saveSession_kept (h : Kept sessionFields r.sessions now) (saved : Records.SavedSession)
    (time : String) : Kept sessionFields (r.saveSession now key saved time).sessions now := by
  have hwhole := savedFields_whole key saved time
    ((r.sessions.get now (Records.sessionKeyOf key)).getD .empty)
  simp only [Records.saveSession]
  cases hrest : Records.savedRest saved (Records.savedFields key saved time
      ((r.sessions.get now (Records.sessionKeyOf key)).getD .empty)) with
  | some written =>
    simp only [Keys.expire_modify]
    exact h.setex ((savedRest_grows hrest).whole hwhole) _
  | none =>
    cases hget : r.sessions.get now (Records.sessionKeyOf key) with
    | some stored =>
      rw [hget] at hwhole
      exact h.modify hget hwhole
    | none =>
      rw [hget] at hrest
      have hcount : (Records.savedFields key saved time empty).integer "turn_count" = some 0 := by
        simp [integer, savedFields_apply_of_not_mem (by decide : "turn_count" ∉ sessionFields), empty]
      simp only [Records.savedRest, Option.getD_none, Option.map_eq_none_iff] at hrest
      split at hrest
      · cases hrest
      · simp [hincrby, hcount] at hrest

theorem incrementTurnCount_kept {stored : Hash} (h : Kept sessionFields r.sessions now)
    (hget : r.sessions.get now (Records.sessionKeyOf key) = some stored) (turns : Int)
    (time : String) :
    Kept sessionFields (r.incrementTurnCount now key turns time).sessions now := by
  simp only [Records.incrementTurnCount, hget, Option.getD_some]
  cases hcount : stored.hincrby "turn_count" turns with
  | none => exact h
  | some counted =>
    have hcounted : Grows stored counted := grows_hincrby hcount
    simp only [Keys.modify_modify]
    refine h.modify hget ?_
    exact (hcounted.trans (grows_hset _ _ _)).whole (h.whole hget)

/-- An update of a streaming session that is there. -/
theorem updateStream_kept {stored : Hash} (h : Kept streamFields r.streams now)
    (hget : r.streams.get now token = some stored) {f : Hash → Hash} (hf : Grows stored (f stored)) :
    Kept streamFields (r.updateStream now token f).streams now := by
  simp only [Records.updateStream]
  refine h.modify hget ?_
  exact hf.whole (h.whole hget)

theorem createSession_kept (h : Kept streamFields r.streams now)
    (created : Records.CreatedStream) :
    Kept streamFields (r.createSession now token key created).streams now := by
  simp only [Records.createSession, Keys.expire_modify]
  exact h.setex (fun field hmem ↦ hsetAll_isSome hmem) _

theorem closeSession_wellKept (h : r.WellKept now) : (r.closeSession now key).WellKept now := by
  unfold Records.closeSession
  split
  · exact ⟨h.sessions.del, h.streams.del⟩
  · exact ⟨h.sessions.del, h.streams⟩

theorem expireSession_wellKept (h : r.WellKept now) (ttlHours : Nat) :
    (r.expireSession now key ttlHours).WellKept now := by
  simp only [Records.expireSession]
  split
  · split
    · exact ⟨h.sessions.expire _, h.streams.expire _⟩
    · exact ⟨h.sessions.expire _, h.streams⟩
  · exact h

/-- A look-up changes no record. -/
theorem findSession_streams (r : Records) (now : Nat) (key : WorktreeKey) :
    (r.findSession now key).2.sessions = r.sessions ∧
      (r.findSession now key).2.streams = r.streams := by
  unfold Records.findSession
  split
  · exact ⟨rfl, rfl⟩
  · split <;> exact ⟨rfl, rfl⟩

/-- An update keeps the records exactly when it finds the one it updates. -/
theorem updateStream_kept_iff (h : Kept streamFields r.streams now) {f : Hash → Hash}
    (hf : ∀ stored, Grows stored (f stored)) :
    Kept streamFields (r.updateStream now token f).streams now ↔
      r.streams.has now token = true := by
  cases hget : r.streams.get now token with
  | some stored =>
    exact iff_of_true (updateStream_kept h hget (hf stored)) (by simp [Keys.has, hget])
  | none =>
    refine iff_of_false ?_ (by simp [Keys.has, hget])
    simp only [Records.updateStream]
    exact Kept.not_modify hget _

/-- An update of a session, likewise. -/
theorem updateSummary_kept_iff (h : Kept sessionFields r.sessions now) (summary : String) :
    Kept sessionFields (r.updateSummary now key summary).sessions now ↔
      r.sessions.has now (Records.sessionKeyOf key) = true := by
  simp only [Records.updateSummary]
  cases hget : r.sessions.get now (Records.sessionKeyOf key) with
  | some stored =>
    refine iff_of_true (h.modify hget ?_) (by simp [Keys.has, hget])
    exact (grows_hset _ _ _).whole (h.whole hget)
  | none => exact iff_of_false (Kept.not_modify hget _) (by simp [Keys.has, hget])

theorem incrementTurnCount_kept_iff (h : Kept sessionFields r.sessions now) (turns : Int)
    (time : String) :
    Kept sessionFields (r.incrementTurnCount now key turns time).sessions now ↔
      r.sessions.has now (Records.sessionKeyOf key) = true := by
  cases hget : r.sessions.get now (Records.sessionKeyOf key) with
  | some stored =>
    exact iff_of_true (incrementTurnCount_kept h hget turns time) (by simp [Keys.has, hget])
  | none =>
    refine iff_of_false ?_ (by simp [Keys.has, hget])
    simp only [Records.incrementTurnCount, hget, Option.getD_none, hincrby, integer, empty,
      Option.map_some, Keys.modify_modify]
    exact Kept.not_modify hget _

theorem incrementRunCount_kept_iff (h : Kept streamFields r.streams now) :
    Kept streamFields (r.incrementRunCount now token).streams now ↔
      r.streams.has now token = true := by
  cases hget : r.streams.get now token with
  | some stored =>
    refine iff_of_true ?_ (by simp [Keys.has, hget])
    simp only [Records.incrementRunCount, hget, Option.getD_some]
    cases hcount : stored.hincrby "run_count" 1 with
    | none => exact h
    | some counted => exact updateStream_kept h hget (grows_hincrby hcount)
  | none =>
    refine iff_of_false ?_ (by simp [Keys.has, hget])
    simp only [Records.incrementRunCount, hget, Option.getD_none, hincrby, integer, empty,
      Option.map_some, Records.updateStream]
    exact Kept.not_modify hget _

/-- `set_running` gives an expiry to what it leaves, but not the fields of a record. -/
theorem setRunning_kept_iff (h : Kept streamFields r.streams now) (ttlSeconds : Nat) :
    Kept streamFields (r.setRunning now token ttlSeconds).streams now ↔
      (ttlSeconds ≠ 0 → r.streams.has now token = true) := by
  simp only [Records.setRunning, Records.updateStream, Keys.expire_modify]
  cases hget : r.streams.get now token with
  | some stored =>
    refine iff_of_true (h.setex ?_ _) fun _ ↦ by simp [Keys.has, hget]
    exact (grows_hset _ _ _).whole (h.whole hget)
  | none =>
    have hhas : r.streams.has now token = false := by simp [Keys.has, hget]
    rw [hhas]
    by_cases hzero : ttlSeconds = 0
    · refine iff_of_true ?_ fun hne ↦ absurd hzero hne
      refine h.of_eq (fun other hne ↦ Keys.setex_apply_of_ne _ _ hne _ _) ?_
      intro cell hcell hlive
      rw [Keys.setex_apply_self] at hcell
      cases hcell
      simp [hzero, Cell.live] at hlive
    · refine iff_of_false ?_ fun himp ↦ Bool.false_ne_true (himp hzero)
      intro hkept
      have hwhole := (hkept token _ (Keys.setex_apply_self _ _ _ _ _) (by
        simp [Cell.live]
        omega)).2 "token" (by decide)
      simp [hset, empty] at hwhole

/-- The effect of an operation on whole records with an expiry. -/
theorem apply_wellKept_iff (sessionTtl : Nat) (h : r.WellKept now) (op : Operation) :
    (r.apply sessionTtl now op).WellKept now ↔ op.FindsRecord r now := by
  have hsessions {p : Prop} {r' : Records} (hsame : r'.streams = r.streams)
      (hkept : Kept sessionFields r'.sessions now ↔ p) : r'.WellKept now ↔ p :=
    ⟨fun h' ↦ hkept.mp h'.sessions, fun hp ↦ ⟨hkept.mpr hp, hsame ▸ h.streams⟩⟩
  have hstreams {p : Prop} {r' : Records} (hsame : r'.sessions = r.sessions)
      (hkept : Kept streamFields r'.streams now ↔ p) : r'.WellKept now ↔ p :=
    ⟨fun h' ↦ hkept.mp h'.streams, fun hp ↦ ⟨hsame ▸ h.sessions, hkept.mpr hp⟩⟩
  cases op with
  | saveSession key saved time =>
    exact iff_of_true ⟨saveSession_kept h.sessions saved time, h.streams⟩ trivial
  | closeSession key => exact iff_of_true (closeSession_wellKept h) trivial
  | expireSession key ttlHours => exact iff_of_true (expireSession_wellKept h ttlHours) trivial
  | updateSummary key summary => exact hsessions rfl (updateSummary_kept_iff h.sessions summary)
  | incrementTurnCount key turns time =>
    refine hsessions ?_ (incrementTurnCount_kept_iff h.sessions turns time)
    simp only [Records.apply, Records.incrementTurnCount]
    split <;> rfl
  | createSession token key created =>
    exact iff_of_true ⟨h.sessions, createSession_kept h.streams created⟩ trivial
  | findSession key =>
    obtain ⟨hsame, hsame'⟩ := findSession_streams r now key
    exact iff_of_true ⟨hsame ▸ h.sessions, hsame' ▸ h.streams⟩ trivial
  | setCompleted token isError sessionId =>
    refine hstreams rfl (updateStream_kept_iff h.streams fun stored ↦ ?_)
    split
    · exact grows_hsetAll _ _
    · exact grows_hset _ _ _
  | setRunning token ttlSeconds => exact hstreams rfl (setRunning_kept_iff h.streams ttlSeconds)
  | deleteSession token => exact iff_of_true ⟨h.sessions, h.streams.del⟩ trivial
  | setTtl token ttlSeconds => exact iff_of_true ⟨h.sessions, h.streams.expire _⟩ trivial
  | updateSessionId token sessionId =>
    exact hstreams rfl (updateStream_kept_iff h.streams fun stored ↦ grows_hset _ _ _)
  | updateTranscriptPath token path =>
    exact hstreams rfl (updateStream_kept_iff h.streams fun stored ↦ grows_hset _ _ _)
  | incrementRunCount token =>
    refine hstreams ?_ (incrementRunCount_kept_iff h.streams)
    simp only [Records.apply, Records.incrementRunCount]
    split <;> rfl
  | incrementSubscribers token => exact iff_of_true ⟨h.sessions, h.streams⟩ trivial
  | decrementSubscribers token => exact iff_of_true ⟨h.sessions, h.streams⟩ trivial
  | pushInboxMessage token content => exact iff_of_true ⟨h.sessions, h.streams⟩ trivial
  | popInboxMessages token => exact iff_of_true ⟨h.sessions, h.streams⟩ trivial

end Operations

/-! ### Runs -/

/-- The records and the clock. -/
structure Clocked where
  records : Records
  now : Nat

/-- What happens to the records: an operation, or milliseconds that pass. -/
inductive Event where
  | operation (op : Operation)
  | tick (milliseconds : Nat)

/-- The runs of the two stores from empty ones, with expiry between any two operations. -/
def stores (sessionTtl : Nat) : System Clocked Event where
  init s := s.records = .empty
  step s
    | .operation op => some { s with records := s.records.apply sessionTtl s.now op }
    | .tick milliseconds => some { s with now := s.now + milliseconds }

/-- Updates find the records they update. -/
def FindsRecords (s : Clocked) : Event → Prop
  | .operation op => op.FindsRecord s.records s.now
  | .tick _ => True

/-- While every update finds its record, every record has an expiry and all its fields; and an
update that does not find its record leaves one that has not. -/
theorem wellKept_of_findsRecords (sessionTtl : Nat) {s : Clocked}
    (h : (stores sessionTtl).ReachWhen FindsRecords s) :
    s.records.WellKept s.now ∧ ∀ op : Operation,
      (s.records.apply sessionTtl s.now op).WellKept s.now ↔ op.FindsRecord s.records s.now := by
  have hkept : s.records.WellKept s.now := by
    refine h.invariant (P := fun s ↦ s.records.WellKept s.now) ?_ ?_
    · intro t ht
      have hempty : t.records = .empty := ht
      rw [hempty]
      exact ⟨.empty, .empty⟩
    · intro t a t' ht hok hstep
      cases a with
      | operation op =>
        cases hstep
        exact (apply_wellKept_iff sessionTtl ht op).mpr hok
      | tick milliseconds =>
        cases hstep
        exact ⟨ht.sessions.mono (Nat.le_add_right _ _), ht.streams.mono (Nat.le_add_right _ _)⟩
  exact ⟨hkept, apply_wellKept_iff sessionTtl hkept⟩

/-- The streaming session of issue 3, which lives for one second. -/
def oneSecond : Event :=
  .operation (.createSession "t0" ⟨"o/r", .issue, "3", "triage"⟩ { ttlSeconds := 1 })

theorem oneSecond_reach (milliseconds : Nat) :
    (stores 2592000).ReachWhen FindsRecords
      ⟨Records.empty.createSession 0 "t0" ⟨"o/r", .issue, "3", "triage"⟩ { ttlSeconds := 1 },
        milliseconds⟩ := by
  have hinit : (stores 2592000).ReachWhen FindsRecords ⟨.empty, 0⟩ := .init rfl
  have hcreate := hinit.step oneSecond trivial rfl
  have htick := hcreate.step (Event.tick milliseconds) trivial rfl
  simpa [Records.apply] using htick

/-- The session ends in time. -/
theorem wellKept_completedInTime :
    ∃ s, (stores 2592000).ReachWhen FindsRecords s ∧ s.now = 999 ∧ s.records.WellKept s.now := by
  have hrun := (oneSecond_reach 999).step (Event.operation (.setCompleted "t0" false none))
    (show _ = true by rfl) rfl
  exact ⟨_, hrun, rfl, (wellKept_of_findsRecords 2592000 hrun).1⟩

/-- The run ends after the record has expired: what `set_completed` leaves has a status and
nothing else, and stays for ever. -/
theorem not_wellKept :
    ¬ ∀ (sessionTtl : Nat) (s : Clocked),
      (stores sessionTtl).Reach s → s.records.WellKept s.now := by
  intro h
  have hrun := (oneSecond_reach 1000).reach.step (Event.operation (.setCompleted "t0" false none))
    trivial rfl
  have hkept := (h _ _ hrun).streams
  simp only [Records.apply, Records.setCompleted, Records.updateStream] at hkept
  exact Kept.not_modify rfl _ hkept

end GithubAgent.Session
