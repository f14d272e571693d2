import GithubAgent.Base.Transition
import GithubAgent.Session.Records
import GithubAgent.Shared.Conversation

/-!
# The streaming lookup

A conversation keeps one session page as long as its lookup string leads to the token of its last
streaming session. The string and the hash expire each by itself: `set_running` and `set_ttl`
change only the hash, `expire_session` and `close_session` act on the token that the session
record names, and an update brings an expired hash back without the fields that say whose it is.
-/

namespace GithubAgent.Session

open GithubAgent.Base GithubAgent.Shared Records

deriving instance DecidableEq for Conversation

/-- The calls of both stores that name a conversation or a token, and the time that passes. -/
inductive LookupCall where
  | createSession (token : String) (c : Conversation) (created : CreatedStream)
  | findSession (c : Conversation)
  | setCompleted (token : String) (isError : Bool) (sessionId : Option String)
  | setRunning (token : String) (ttlSeconds : Nat)
  | updateSessionId (token sessionId : String)
  | updateTranscriptPath (token path : String)
  | incrementRunCount (token : String)
  | setTtl (token : String) (ttlSeconds : Nat)
  | deleteSession (token : String)
  | saveSession (c : Conversation) (saved : SavedSession) (time : String)
  | updateSummary (c : Conversation) (summary : String)
  | incrementTurnCount (c : Conversation) (additionalTurns : Int) (time : String)
  | closeSession (c : Conversation)
  | expireSession (c : Conversation) (ttlHours : Nat)
  | tick (milliseconds : Nat)

/-- The records; of the tokens created, the newest first, whose they are; and the tokens whose
hash has existed ever since. -/
structure Addressed where
  records : Records
  now : Nat
  created : List (String × Conversation)
  intact : List String

namespace Addressed

/-- The last token created for a conversation. -/
def latest (s : Addressed) (c : Conversation) : Option String :=
  (s.created.find? (·.2 = c)).map Prod.fst

/-- What `find_session` returns for a conversation. -/
def found (s : Addressed) (c : Conversation) : Option String :=
  (s.records.findSession s.now c.worktreeKey).1

/-- The state after other records or another time. -/
def settle (s : Addressed) (records : Records) (now : Nat) : Addressed :=
  { s with
    records := records
    now := now
    intact := s.intact.filter (records.streams.has now ·) }

/-- A new token, which no session has had. -/
def issue (s : Addressed) (token : String) (c : Conversation) : Option Addressed :=
  if token ≠ "" ∧ token ∉ s.created.map Prod.fst then
    some { s with created := (token, c) :: s.created, intact := token :: s.intact }
  else none

/-- The state after an operation. -/
def perform (s : Addressed) (sessionTtl : Nat) (op : Operation) : Addressed :=
  s.settle (s.records.apply sessionTtl s.now op) s.now

end Addressed

/-- Calls in any order, on any conversations and tokens; a created token is new (`uuid4`). -/
def addressing (sessionTtl : Nat) : System Addressed LookupCall where
  init s := s.records = .empty ∧ s.created = [] ∧ s.intact = []
  step s
    | .createSession token c created =>
      (s.issue token c).map (·.perform sessionTtl (.createSession token c.worktreeKey created))
    | .findSession c => some (s.perform sessionTtl (.findSession c.worktreeKey))
    | .setCompleted token isError sessionId =>
      some (s.perform sessionTtl (.setCompleted token isError sessionId))
    | .setRunning token ttlSeconds => some (s.perform sessionTtl (.setRunning token ttlSeconds))
    | .updateSessionId token sessionId =>
      some (s.perform sessionTtl (.updateSessionId token sessionId))
    | .updateTranscriptPath token path =>
      some (s.perform sessionTtl (.updateTranscriptPath token path))
    | .incrementRunCount token => some (s.perform sessionTtl (.incrementRunCount token))
    | .setTtl token ttlSeconds => some (s.perform sessionTtl (.setTtl token ttlSeconds))
    | .deleteSession token => some (s.perform sessionTtl (.deleteSession token))
    | .saveSession c saved time =>
      some (s.perform sessionTtl (.saveSession c.worktreeKey saved time))
    | .updateSummary c summary =>
      some (s.perform sessionTtl (.updateSummary c.worktreeKey summary))
    | .incrementTurnCount c turns time =>
      some (s.perform sessionTtl (.incrementTurnCount c.worktreeKey turns time))
    | .closeSession c => some (s.perform sessionTtl (.closeSession c.worktreeKey))
    | .expireSession c ttlHours =>
      some (s.perform sessionTtl (.expireSession c.worktreeKey ttlHours))
    | .tick milliseconds => some (s.settle s.records (s.now + milliseconds))

/-- The fields of a hash that say whose session it is. -/
def Names (h : Hash) (c : Conversation) : Prop :=
  h "repo" = some c.repo ∧ h "issue_number" = some c.threadId ∧
    h "workflow" = some c.workflow ∧ h "thread_type" = some c.threadType.value

/-- What is found is a session of the conversation, and it is the last one created for it as long
as that has existed without a break. -/
structure Agrees (s : Addressed) : Prop where
  names : ∀ c t, s.found c = some t →
    ∃ h, s.records.streams.get s.now t = some h ∧ Names h c
  stable : ∀ c t, s.latest c = some t → t ∈ s.intact → s.found c = some t

/-! ### The condition -/

section Condition

variable (s : Addressed)

/-- No lookup holds the token. -/
def Unlisted (t : String) : Prop :=
  ∀ c : Conversation, s.records.lookups.get s.now (lookupKeyOf c.worktreeKey) ≠ some t

/-- An update finds the hash, or nobody will find what it leaves. -/
def UpdateFits (t : String) : Prop := s.records.streams.has s.now t = true ∨ Unlisted s t

/-- If the token is the last of the conversation, the lookup will still lead to it in the last
millisecond of the new expiry. -/
def LookupLasts (c : Conversation) (t : String) (seconds : Nat) : Prop :=
  s.latest c = some t → t ∈ s.intact → seconds ≠ 0 →
    s.records.lookups.get (s.now + 1000 * seconds - 1) (lookupKeyOf c.worktreeKey) = some t

/-- The token that the session record of the conversation names is its last one; or that one is
gone by the time to which the lookup is cut. -/
def NamesLatest (c : Conversation) (t : String) (seconds : Nat) : Prop :=
  ∀ u, s.latest c = some u → u ∈ s.intact → u ≠ t →
    s.records.streams.has (s.now + 1000 * seconds) u = false

/-- Updates find the hash they update; no expiry of a conversation's last hash goes beyond that of
the lookup; and a session record is closed, or its expiry propagated, only when it names the last
token. -/
def Fits : LookupCall → Prop
  | .setCompleted t _ _ | .updateSessionId t _ | .updateTranscriptPath t _
  | .incrementRunCount t => UpdateFits s t
  | .setRunning t ttlSeconds =>
    (ttlSeconds ≠ 0 → UpdateFits s t) ∧ ∀ c, LookupLasts s c t ttlSeconds
  | .setTtl t ttlSeconds => ∀ c, LookupLasts s c t ttlSeconds
  | .closeSession c =>
    ∀ t, s.records.streamingTokenOf s.now c.worktreeKey = some t → NamesLatest s c t 0
  | .expireSession c ttlHours => ttlHours ≠ 0 →
    ∀ t, s.records.streamingTokenOf s.now c.worktreeKey = some t →
      NamesLatest s c t (ttlHours * 3600) ∧ ∀ d ≠ c, LookupLasts s d t (ttlHours * 3600)
  | _ => True

end Condition

/-! ### The invariant -/

/-- The key of the conversation's lookup. -/
abbrev lookupOf (c : Conversation) : String := lookupKeyOf c.worktreeKey

theorem lookupOf_ne {c d : Conversation} (h : c ≠ d) : lookupOf c ≠ lookupOf d :=
  fun heq ↦ h (streamingLookupKey_injective heq)

theorem lookupOf_ne_legacy (c d : Conversation) : lookupOf c ≠ legacyKeyOf d.worktreeKey :=
  streamingLookupKey_typed_ne c d

/-- What keeps lookups and hashes in agreement. -/
structure Paired (s : Addressed) : Prop where
  issued : ∀ t ∈ s.created.map Prod.fst, t ≠ ""
  legacy : ∀ c : Conversation, s.records.lookups (legacyKeyOf c.worktreeKey) = none
  live : ∀ t ∈ s.intact, s.records.streams.has s.now t = true
  listed : ∀ c t, s.records.lookups.get s.now (lookupOf c) = some t → t ∈ s.created.map Prod.fst
  names : ∀ c t, s.records.lookups.get s.now (lookupOf c) = some t →
    ∀ h, s.records.streams.get s.now t = some h → Names h c
  lasts : ∀ c t, s.latest c = some t → t ∈ s.intact →
    ∀ later, s.now ≤ later → s.records.streams.has later t = true →
      s.records.lookups.get later (lookupOf c) = some t

section Step

variable {s : Addressed} {r : Records} {now : Nat}

theorem mem_created_of_latest {c : Conversation} {t : String} (h : s.latest c = some t) :
    t ∈ s.created.map Prod.fst := by
  obtain ⟨entry, hentry, rfl⟩ := Option.map_eq_some_iff.mp h
  exact List.mem_map_of_mem (List.mem_of_find?_eq_some hentry)

/-- With no lookup in the older format, `find_session` reads the one lookup. -/
theorem lookedUp_eq (h : Paired s) (c : Conversation) :
    s.records.lookedUp s.now c.worktreeKey = s.records.lookups.get s.now (lookupOf c) := by
  have hlegacy : s.records.lookups.get s.now (legacyKeyOf c.worktreeKey) = none := by
    simp [Keys.get, h.legacy c]
  unfold lookedUp
  rw [hlegacy, Option.filter_none, Option.or_none]
  cases hget : s.records.lookups.get s.now (lookupOf c) with
  | none => rfl
  | some t =>
    have hne := h.issued t (h.listed c t hget)
    simp [Option.filter_some, hne]

theorem found_eq_some (h : Paired s) {c : Conversation} {t : String} :
    s.found c = some t ↔ s.records.lookups.get s.now (lookupOf c) = some t ∧
      s.records.streams.has s.now t = true := by
  unfold Addressed.found findSession
  rw [lookedUp_eq h]
  cases hget : s.records.lookups.get s.now (lookupOf c) with
  | none => simp
  | some u =>
    simp only [Option.some.injEq]
    split
    · next hhas =>
      constructor
      · rintro ⟨⟩
        exact ⟨rfl, hhas⟩
      · rintro ⟨rfl, -⟩
        rfl
    · next hhas =>
      refine iff_of_false (Option.some_ne_none t).symm ?_
      rintro ⟨rfl, hlive⟩
      exact hhas hlive

theorem agrees_of_paired (h : Paired s) : Agrees s := by
  constructor
  · intro c t hfound
    obtain ⟨hget, hhas⟩ := (found_eq_some h).mp hfound
    obtain ⟨value, hvalue⟩ := Option.isSome_iff_exists.mp hhas
    exact ⟨value, hvalue, h.names c t hget value hvalue⟩
  · intro c t hlatest hintact
    have hlive := h.live t hintact
    exact (found_eq_some h).mpr ⟨h.lasts c t hlatest hintact s.now (Nat.le_refl _) hlive, hlive⟩

/-- What a step may do: lookups are only lost, what a lookup leads to keeps its owner, and the
last hash of a conversation does not outlive the lookup. -/
theorem Paired.settle (h : Paired s)
    (hlegacy : ∀ c : Conversation, r.lookups (legacyKeyOf c.worktreeKey) = none)
    (hlookups : ∀ c t, r.lookups.get now (lookupOf c) = some t →
      s.records.lookups.get s.now (lookupOf c) = some t)
    (hstreams : ∀ c t value', r.lookups.get now (lookupOf c) = some t →
      r.streams.get now t = some value' →
      ∃ value, s.records.streams.get s.now t = some value ∧ (Names value c → Names value' c))
    (hlasts : ∀ c t, s.latest c = some t → t ∈ s.intact → r.streams.has now t = true →
      ∀ later, now ≤ later → r.streams.has later t = true →
        r.lookups.get later (lookupOf c) = some t) : Paired (s.settle r now) where
  issued := h.issued
  legacy := hlegacy
  live _ ht := (List.mem_filter.mp ht).2
  listed c t hget := h.listed c t (hlookups c t hget)
  names c t hget value' hvalue' := by
    obtain ⟨value, hvalue, hnames⟩ := hstreams c t value' hget hvalue'
    exact hnames (h.names c t (hlookups c t hget) value hvalue)
  lasts c t hlatest ht := by
    obtain ⟨hintact, hhas⟩ := List.mem_filter.mp ht
    exact hlasts c t hlatest hintact hhas

/-- A step that leaves the lookups alone and changes the hash of one token. -/
theorem Paired.settle_stream (h : Paired s) {t : String} (hlookups : r.lookups = s.records.lookups)
    (hother : ∀ u ≠ t, r.streams u = s.records.streams u)
    (hself : ∀ value', r.streams.get s.now t = some value' → Unlisted s t ∨
      ∃ value, s.records.streams.get s.now t = some value ∧ ∀ c, Names value c → Names value' c)
    (hlast : ∀ c, s.latest c = some t → t ∈ s.intact →
      ∀ later, s.now ≤ later → r.streams.has later t = true →
        s.records.lookups.get later (lookupOf c) = some t) : Paired (s.settle r s.now) := by
  refine h.settle (hlookups ▸ h.legacy) (fun c u hget ↦ hlookups ▸ hget) ?_ ?_
  · intro c u value' hget hvalue'
    rw [hlookups] at hget
    by_cases hu : u = t
    · subst hu
      rcases hself value' hvalue' with hnone | ⟨value, hvalue, hnames⟩
      · exact absurd hget (hnone c)
      · exact ⟨value, hvalue, hnames c⟩
    · rw [Keys.get_congr (hother u hu)] at hvalue'
      exact ⟨value', hvalue', id⟩
  · intro c u hlatest hintact _ later hle hhas
    rw [hlookups]
    by_cases hu : u = t
    · subst hu
      exact hlast c hlatest hintact later hle hhas
    · rw [Keys.has, Keys.get_congr (hother u hu)] at hhas
      exact h.lasts c u hlatest hintact later hle hhas

/-- A step that leaves both alone. -/
theorem Paired.settle_same (h : Paired s) (hlookups : r.lookups = s.records.lookups)
    (hstreams : r.streams = s.records.streams) : Paired (s.settle r s.now) := by
  refine h.settle_stream (t := "") hlookups (fun u _ ↦ by rw [hstreams]) ?_ ?_
  · intro value' hvalue'
    rw [hstreams] at hvalue'
    exact .inr ⟨value', hvalue', fun _ ↦ id⟩
  · intro c hlatest hintact later hle hhas
    rw [hstreams] at hhas
    exact h.lasts c "" hlatest hintact later hle hhas

theorem Paired.tick (h : Paired s) (milliseconds : Nat) :
    Paired (s.settle s.records (s.now + milliseconds)) := by
  have hle : s.now ≤ s.now + milliseconds := Nat.le_add_right _ _
  refine h.settle h.legacy (fun c t hget ↦ Keys.get_eq_some_of_le hle hget) ?_ ?_
  · intro c t value' _ hvalue'
    exact ⟨value', Keys.get_eq_some_of_le hle hvalue', id⟩
  · intro c t hlatest hintact _ later hlater
    exact h.lasts c t hlatest hintact later (hle.trans hlater)

/-- A lookup that lasts up to an expiry covers the time before it. -/
theorem LookupLasts.get {c : Conversation} {t : String} {seconds later : Nat}
    (h : LookupLasts s c t seconds) (hlatest : s.latest c = some t) (hintact : t ∈ s.intact)
    (hlater : later < s.now + 1000 * seconds) (hle : s.now ≤ later) :
    s.records.lookups.get later (lookupOf c) = some t :=
  Keys.get_eq_some_of_le (by omega) (h hlatest hintact (by omega))

/-- A field that is not one of the owner's. -/
theorem names_hset {value : Hash} {c : Conversation} {field : String} (text : String)
    (hfield : field ∉ ["repo", "issue_number", "workflow", "thread_type"])
    (h : Names value c) : Names (value.hset field text) c := by
  simp only [List.mem_cons, List.not_mem_nil, or_false, not_or] at hfield
  obtain ⟨hrepo, hnumber, hworkflow, htype⟩ := hfield
  unfold Names Hash.hset at *
  simpa [Function.update_of_ne (Ne.symm hrepo), Function.update_of_ne (Ne.symm hnumber),
    Function.update_of_ne (Ne.symm hworkflow), Function.update_of_ne (Ne.symm htype)] using h

/-- An update of a hash keeps its expiry. -/
theorem Paired.updateStream (h : Paired s) {t : String} {f : Hash → Hash} (hfits : UpdateFits s t)
    (hf : ∀ value, (s.records.streams.get s.now t).getD .empty = value →
      ∀ c, Names value c → Names (f value) c) :
    Paired (s.settle (s.records.updateStream s.now t f) s.now) := by
  refine h.settle_stream (t := t) rfl ?_ ?_ ?_
  · exact fun u hu ↦ updateStream_of_ne _ _ hu _
  · intro value' hvalue'
    simp only [Records.updateStream, Keys.get_modify_self, Option.some.injEq] at hvalue'
    rcases hfits with hhas | hnone
    · obtain ⟨value, hvalue⟩ := Option.isSome_iff_exists.mp hhas
      rw [hvalue, Option.getD_some] at hvalue'
      exact .inr ⟨value, hvalue, hvalue' ▸ hf value (by rw [hvalue, Option.getD_some])⟩
    · exact .inl hnone
  · intro c hlatest hintact later hle hhas
    simp only [Records.updateStream, Keys.has_modify_self (h.live t hintact)] at hhas
    exact h.lasts c t hlatest hintact later hle hhas

theorem Paired.setCompleted (h : Paired s) {t : String} (hfits : UpdateFits s t) (isError : Bool)
    (sessionId : Option String) :
    Paired (s.settle (s.records.setCompleted s.now t isError sessionId) s.now) := by
  have hstatus : "status" ∉ ["repo", "issue_number", "workflow", "thread_type"] := by decide
  have hsession : "session_id" ∉ ["repo", "issue_number", "workflow", "thread_type"] := by decide
  simp only [Records.setCompleted]
  refine h.updateStream hfits fun value _ c hnames ↦ ?_
  split
  · exact names_hset _ hsession (names_hset _ hstatus hnames)
  · exact names_hset _ hstatus hnames

theorem Paired.incrementRunCount (h : Paired s) {t : String} (hfits : UpdateFits s t) :
    Paired (s.settle (s.records.incrementRunCount s.now t) s.now) := by
  unfold Records.incrementRunCount
  split
  · exact h.settle_same rfl rfl
  · next counted hcounted =>
    obtain ⟨old, -, rfl⟩ := Option.map_eq_some_iff.mp hcounted
    refine h.updateStream hfits fun value hvalue c hnames ↦ ?_
    rw [hvalue]
    exact names_hset _ (by decide) hnames

theorem Paired.setRunning (h : Paired s) {t : String} {ttlSeconds : Nat}
    (hfits : ttlSeconds ≠ 0 → UpdateFits s t) (hlasts : ∀ c, LookupLasts s c t ttlSeconds) :
    Paired (s.settle (s.records.setRunning s.now t ttlSeconds) s.now) := by
  simp only [Records.setRunning, Records.updateStream, Keys.expire_modify]
  refine h.settle_stream (t := t) rfl ?_ ?_ ?_
  · exact fun u hu ↦ Keys.setex_apply_of_ne _ _ hu _ _
  · intro value' hvalue'
    rw [Keys.get_setex_self, Option.ite_none_right_eq_some, Option.some.injEq] at hvalue'
    obtain ⟨hlater, rfl⟩ := hvalue'
    rcases hfits (by omega) with hhas | hnone
    · obtain ⟨value, hvalue⟩ := Option.isSome_iff_exists.mp hhas
      refine .inr ⟨value, hvalue, fun c hnames ↦ ?_⟩
      rw [hvalue]
      exact names_hset _ (by decide) hnames
    · exact .inl hnone
  · intro c hlatest hintact later hle hhas
    simp only [Keys.has, Keys.get_setex_self] at hhas
    split at hhas
    · next hlater => exact (hlasts c).get hlatest hintact hlater hle
    · cases hhas

/-- A new expiry of a hash, and the values that it leaves. -/
theorem Paired.setTtl (h : Paired s) {t : String} {ttlSeconds : Nat}
    (hlasts : ∀ c, LookupLasts s c t ttlSeconds) :
    Paired (s.settle (s.records.setTtl s.now t ttlSeconds) s.now) := by
  refine h.settle_stream (t := t) rfl ?_ ?_ ?_
  · exact fun u hu ↦ Keys.expire_apply_of_ne _ _ hu _
  · intro value' hvalue'
    simp only [Records.setTtl, Keys.get_expire_self _ (Nat.le_refl _),
      Option.ite_none_right_eq_some] at hvalue'
    exact .inr ⟨value', hvalue'.2, fun _ ↦ id⟩
  · intro c hlatest hintact later hle hhas
    simp only [Records.setTtl, Keys.has, Keys.get_expire_self _ hle] at hhas
    split at hhas
    · next hlater => exact (hlasts c).get hlatest hintact hlater hle
    · cases hhas

theorem Paired.deleteSession (h : Paired s) (t : String) :
    Paired (s.settle (s.records.deleteSession t) s.now) := by
  refine h.settle_stream (t := t) rfl ?_ ?_ ?_
  · exact fun u hu ↦ Keys.del_apply_of_ne _ hu
  · intro value' hvalue'
    simp [Records.deleteSession] at hvalue'
  · intro c _ _ later _ hhas
    simp [Records.deleteSession, Keys.has] at hhas

theorem get_del_lookup {m : Keys String String} {c d : Conversation} {t : String} {later : Nat}
    (hget : (m.del (lookupOf d)).get later (lookupOf c) = some t) :
    m.get later (lookupOf c) = some t := by
  by_cases hcd : c = d
  · subst hcd
    simp at hget
  · rwa [Keys.get_del_of_ne _ _ (lookupOf_ne hcd)] at hget

/-- The lookup that `find_session` deletes leads to a hash that does not exist. -/
theorem Paired.findSession (h : Paired s) (d : Conversation) :
    Paired (s.settle (s.records.findSession s.now d.worktreeKey).2 s.now) := by
  unfold Records.findSession
  rw [lookedUp_eq h]
  cases hget : s.records.lookups.get s.now (lookupOf d) with
  | none => exact h.settle_same rfl rfl
  | some t =>
    simp only
    split
    · exact h.settle_same rfl rfl
    · next hgone =>
      refine h.settle ?_ (fun c u hu ↦ get_del_lookup hu) ?_ ?_
      · intro c
        dsimp only
        rw [Keys.del_apply_of_ne _ (lookupOf_ne_legacy d c).symm]
        exact h.legacy c
      · exact fun c u value' _ hvalue' ↦ ⟨value', hvalue', id⟩
      · intro c u hlatest hintact hhas later hle hlater
        have hlast := h.lasts c u hlatest hintact
        have hcd : c ≠ d := by
          rintro rfl
          have hnow := hlast s.now (Nat.le_refl _) hhas
          rw [hget, Option.some.injEq] at hnow
          exact hgone (hnow ▸ hhas)
        rw [Keys.get_del_of_ne _ _ (lookupOf_ne hcd)]
        exact hlast later hle hlater

/-- A session that is closed takes with it the lookup and the hash that its record names. -/
theorem Paired.closeSession (h : Paired s) {d : Conversation}
    (hnames : ∀ t, s.records.streamingTokenOf s.now d.worktreeKey = some t → NamesLatest s d t 0) :
    Paired (s.settle (s.records.closeSession s.now d.worktreeKey) s.now) := by
  unfold Records.closeSession
  cases htoken : s.records.streamingTokenOf s.now d.worktreeKey with
  | none => exact h.settle_same rfl rfl
  | some t =>
    simp only [cleanupStreaming]
    have hlegacy (c : Conversation) : lookupOf c ≠ legacyKeyOf d.worktreeKey :=
      lookupOf_ne_legacy c d
    refine h.settle ?_ ?_ ?_ ?_
    · intro c
      dsimp only
      by_cases hkey : legacyKeyOf c.worktreeKey = legacyKeyOf d.worktreeKey
      · simp [Keys.del, hkey]
      · rw [Keys.del_apply_of_ne _ hkey, Keys.del_apply_of_ne _ (lookupOf_ne_legacy d c).symm]
        exact h.legacy c
    · intro c u hget
      rw [Keys.get_del_of_ne _ _ (hlegacy c)] at hget
      exact get_del_lookup hget
    · intro c u value' _ hvalue'
      by_cases hu : u = t
      · subst hu
        simp at hvalue'
      · rw [Keys.get_del_of_ne _ _ hu] at hvalue'
        exact ⟨value', hvalue', id⟩
    · intro c u hlatest hintact hhas later hle hlater
      have hu : u ≠ t := by
        rintro rfl
        simp [Keys.has] at hhas
      have hcd : c ≠ d := by
        rintro rfl
        have hdead := hnames t htoken u hlatest hintact hu
        rw [Nat.mul_zero, Nat.add_zero, h.live u hintact] at hdead
        cases hdead
      rw [Keys.has_del_of_ne _ _ hu] at hlater
      rw [Keys.get_del_of_ne _ _ (hlegacy c), Keys.get_del_of_ne _ _ (lookupOf_ne hcd)]
      exact h.lasts c u hlatest hintact later hle hlater

/-- An expiry in the future leaves the session record to be read. -/
theorem streamingTokenOf_expire (r : Records) (now : Nat) (key : WorktreeKey) (seconds : Nat) :
    ({ r with sessions := r.sessions.expire now (sessionKeyOf key) seconds } :
      Records).streamingTokenOf now key =
      if seconds = 0 then none else r.streamingTokenOf now key := by
  unfold streamingTokenOf getSession
  simp only [Keys.get_expire_self _ (Nat.le_refl now)]
  by_cases hzero : seconds = 0
  · simp [hzero]
  · have hlater : now < now + 1000 * seconds := by omega
    simp [hzero, hlater]

theorem get_expire_lookup {m : Keys String String} {c d : Conversation} {t : String}
    {seconds : Nat} (hget : (m.expire now (lookupOf d) seconds).get now (lookupOf c) = some t) :
    m.get now (lookupOf c) = some t := by
  by_cases hcd : c = d
  · subst hcd
    rw [Keys.get_expire_self _ (Nat.le_refl _), Option.ite_none_right_eq_some] at hget
    exact hget.2
  · rwa [Keys.get_expire_of_ne _ _ _ (lookupOf_ne hcd)] at hget

/-- The expiry of a conversation goes to the lookup and to the hash its record names. -/
theorem Paired.propagateStreamingTtl (h : Paired s) {d : Conversation} {t : String}
    {ttlHours : Nat} (hnames : NamesLatest s d t (ttlHours * 3600))
    (hothers : ∀ c ≠ d, LookupLasts s c t (ttlHours * 3600)) :
    Paired (s.settle (s.records.propagateStreamingTtl s.now t d.worktreeKey ttlHours) s.now) := by
  unfold Records.propagateStreamingTtl NamesLatest at *
  generalize ttlHours * 3600 = seconds at *
  simp only [Records.setTtl]
  have hlegacy (c : Conversation) : lookupOf c ≠ legacyKeyOf d.worktreeKey :=
    lookupOf_ne_legacy c d
  refine h.settle ?_ ?_ ?_ ?_
  · intro c
    exact Keys.expire_eq_none (Keys.expire_eq_none (h.legacy c) _ _ _) _ _ _
  · intro c u hget
    rw [Keys.get_expire_of_ne _ _ _ (hlegacy c)] at hget
    exact get_expire_lookup hget
  · intro c u value' _ hvalue'
    by_cases hu : u = t
    · subst hu
      rw [Keys.get_expire_self _ (Nat.le_refl _), Option.ite_none_right_eq_some] at hvalue'
      exact ⟨value', hvalue'.2, id⟩
    · rw [Keys.get_expire_of_ne _ _ _ hu] at hvalue'
      exact ⟨value', hvalue', id⟩
  · intro c u hlatest hintact _ later hle hlater
    have hlive := h.live u hintact
    have hlast := h.lasts c u hlatest hintact
    rw [Keys.get_expire_of_ne _ _ _ (hlegacy c)]
    by_cases hcd : c = d
    · subst hcd
      rw [Keys.get_expire_self _ hle, if_pos, hlast s.now (Nat.le_refl _) hlive]
      by_cases hu : u = t
      · subst hu
        rw [Keys.has, Keys.get_expire_self _ hle] at hlater
        split at hlater
        · assumption
        · cases hlater
      · rw [Keys.has, Keys.get_expire_of_ne _ _ _ hu] at hlater
        by_contra hge
        obtain ⟨value, hvalue⟩ := Option.isSome_iff_exists.mp hlater
        have hdead := hnames u hlatest hintact hu
        rw [Keys.has, Keys.get_eq_some_of_le (by omega) hvalue] at hdead
        cases hdead
    · rw [Keys.get_expire_of_ne _ _ _ (lookupOf_ne hcd)]
      by_cases hu : u = t
      · subst hu
        rw [Keys.has, Keys.get_expire_self _ hle] at hlater
        split at hlater
        · next hbefore => exact (hothers c hcd).get hlatest hintact hbefore hle
        · cases hlater
      · rw [Keys.has, Keys.get_expire_of_ne _ _ _ hu] at hlater
        exact hlast later hle hlater

/-- Session records do not matter. -/
theorem Paired.congr {r' : Records} (h : Paired (s.settle r now)) (hlookups : r'.lookups = r.lookups)
    (hstreams : r'.streams = r.streams) : Paired (s.settle r' now) := by
  obtain ⟨sessions, streams, lookups, inboxes, subscribers⟩ := r
  obtain ⟨sessions', streams', lookups', inboxes', subscribers'⟩ := r'
  subst hlookups hstreams
  exact ⟨h.issued, h.legacy, h.live, h.listed, h.names, h.lasts⟩

theorem Paired.expireSession (h : Paired s) {d : Conversation} {ttlHours : Nat}
    (hfits : Fits s (.expireSession d ttlHours)) :
    Paired (s.settle (s.records.expireSession s.now d.worktreeKey ttlHours) s.now) := by
  simp only [Records.expireSession]
  split
  · split
    · next t htoken =>
      rw [streamingTokenOf_expire] at htoken
      split at htoken
      · cases htoken
      · next hpos =>
        obtain ⟨hnames, hothers⟩ := hfits (fun hzero ↦ hpos (by simp [hzero])) t htoken
        exact (h.propagateStreamingTtl hnames hothers).congr rfl rfl
    · exact h.settle_same rfl rfl
  · exact h.settle_same rfl rfl

theorem names_createdMapping (stored : Hash) (t : String) (c : Conversation)
    (created : CreatedStream) :
    Names (stored.hsetAll (createdMapping t c.worktreeKey created)) c := by
  simp [Names, createdMapping, Hash.hsetAll, Hash.hset, Conversation.worktreeKey]

theorem latest_cons (t : String) (c d : Conversation) (rest : Addressed)
    (h : rest.created = (t, c) :: s.created) :
    rest.latest d = if c = d then some t else s.latest d := by
  unfold Addressed.latest
  rw [h, List.find?_cons]
  by_cases hcd : c = d <;> simp [hcd]

/-- The lookups after a new one. -/
theorem get_setexLookup (r : Records) (now : Nat) (t : String) (ttlSeconds : Nat)
    (c d : Conversation) (later : Nat) :
    (r.setexLookup now (lookupOf c) t ttlSeconds).get later (lookupOf d) =
      if c = d ∧ ttlSeconds ≠ 0 then
        if later < now + 1000 * ttlSeconds then some t else none
      else r.lookups.get later (lookupOf d) := by
  unfold setexLookup
  by_cases hzero : ttlSeconds = 0
  · simp [hzero]
  · by_cases hcd : c = d
    · subst hcd
      simp [hzero]
    · simp [hzero, hcd, Keys.get_setex_of_ne _ _ _ (lookupOf_ne (Ne.symm hcd))]

/-- A new session has both, with one expiry. -/
theorem Paired.createSession (h : Paired s) {t : String} {c : Conversation}
    (created : CreatedStream) (hne : t ≠ "") (hfresh : t ∉ s.created.map Prod.fst) :
    Paired (({ s with created := (t, c) :: s.created, intact := t :: s.intact } :
      Addressed).settle (s.records.createSession s.now t c.worktreeKey created) s.now) := by
  have hold {d : Conversation} {u : String} (hget : s.records.lookups.get s.now (lookupOf d) =
      some u) : u ≠ t := fun heq ↦ hfresh (heq ▸ h.listed d u hget)
  have hlookup (d : Conversation) (later : Nat) :=
    get_setexLookup s.records s.now t created.ttlSeconds c d later
  have hstream {u : String} (hu : u ≠ t) (later : Nat) :
      (s.records.createSession s.now t c.worktreeKey created).streams.get later u =
        s.records.streams.get later u :=
    Keys.get_congr (createSession_of_ne _ _ hu _ _) later
  constructor
  · intro u hu
    rcases List.mem_cons.mp hu with rfl | hu
    · exact hne
    · exact h.issued u hu
  · intro d
    simp only [Addressed.settle, Records.createSession, setexLookup]
    split
    · exact h.legacy d
    · rw [Keys.setex_apply_of_ne _ _ (lookupOf_ne_legacy c d).symm]
      exact h.legacy d
  · exact fun u hu ↦ (List.mem_filter.mp hu).2
  · intro d u hget
    replace hget := (hlookup d s.now).symm.trans hget
    split at hget
    · rw [Option.ite_none_right_eq_some, Option.some.injEq] at hget
      exact List.mem_cons.mpr (.inl hget.2.symm)
    · exact List.mem_cons_of_mem _ (h.listed d u hget)
  · intro d u hget value hvalue
    replace hget := (hlookup d s.now).symm.trans hget
    split at hget
    · next hcase =>
      obtain ⟨rfl, -⟩ := hcase
      rw [Option.ite_none_right_eq_some, Option.some.injEq] at hget
      obtain ⟨hlater, rfl⟩ := hget
      simp only [Addressed.settle, Records.createSession, Keys.expire_modify,
        Keys.get_setex_self, hlater, if_true, Option.some.injEq] at hvalue
      exact hvalue ▸ names_createdMapping _ _ _ _
    · exact h.names d u hget value ((hstream (hold hget) s.now).symm.trans hvalue)
  · intro d u hlatest hu later hle hlater
    rw [show (_ : Addressed).latest d = _ from latest_cons t c d _ rfl] at hlatest
    refine (hlookup d later).trans ?_
    by_cases hcd : c = d
    · subst hcd
      rw [if_pos rfl, Option.some.injEq] at hlatest
      subst hlatest
      simp only [Addressed.settle, Records.createSession, Keys.expire_modify, Keys.has,
        Keys.get_setex_self] at hlater
      split at hlater
      · next hbefore =>
        have hle : s.now ≤ later := hle
        have hpos : created.ttlSeconds ≠ 0 := by omega
        simp [hpos, hbefore]
      · cases hlater
    · rw [if_neg hcd] at hlatest
      have hut : u ≠ t := fun heq ↦ hfresh (heq ▸ mem_created_of_latest hlatest)
      have hintact : u ∈ s.intact :=
        (List.mem_cons.mp (List.mem_filter.mp hu).1).resolve_left hut
      have hlater : s.records.streams.has later u = true := by
        rw [Keys.has, ← hstream hut later]
        exact hlater
      rw [if_neg fun hcase ↦ hcd hcase.1]
      exact h.lasts d u hlatest hintact later hle hlater

/-- One step. -/
theorem Paired.step (h : Paired s) {sessionTtl : Nat} {call : LookupCall} {s' : Addressed}
    (hfits : Fits s call) (hstep : (addressing sessionTtl).step s call = some s') :
    Paired s' := by
  cases call with
  | createSession t c created =>
    obtain ⟨_, hissue, rfl⟩ := Option.map_eq_some_iff.mp hstep
    obtain ⟨⟨hne, hfresh⟩, rfl⟩ := System.guarded_eq_some hissue
    exact h.createSession created hne hfresh
  | findSession c =>
    cases hstep
    exact h.findSession c
  | setCompleted t isError sessionId =>
    cases hstep
    exact h.setCompleted hfits isError sessionId
  | setRunning t ttlSeconds =>
    cases hstep
    exact h.setRunning hfits.1 hfits.2
  | updateSessionId t sessionId =>
    cases hstep
    exact h.updateStream hfits fun _ _ _ hnames ↦ names_hset _ (by decide) hnames
  | updateTranscriptPath t path =>
    cases hstep
    exact h.updateStream hfits fun _ _ _ hnames ↦ names_hset _ (by decide) hnames
  | incrementRunCount t =>
    cases hstep
    exact h.incrementRunCount hfits
  | setTtl t ttlSeconds =>
    cases hstep
    exact h.setTtl hfits
  | deleteSession t =>
    cases hstep
    exact h.deleteSession t
  | saveSession c saved time =>
    cases hstep
    exact h.settle_same rfl rfl
  | updateSummary c summary =>
    cases hstep
    exact h.settle_same rfl rfl
  | incrementTurnCount c turns time =>
    cases hstep
    refine h.settle_same ?_ ?_ <;>
    · simp only [Records.apply, Records.incrementTurnCount]
      split <;> rfl
  | closeSession c =>
    cases hstep
    exact h.closeSession hfits
  | expireSession c ttlHours =>
    cases hstep
    exact h.expireSession hfits
  | tick milliseconds =>
    cases hstep
    exact h.tick milliseconds

end Step

/-- In the runs whose calls meet the condition, what is found for a conversation is a session of
it, and the last one as long as that exists. -/
theorem agrees_of_fits (sessionTtl : Nat) {s : Addressed}
    (h : (addressing sessionTtl).ReachWhen Fits s) : Agrees s := by
  refine agrees_of_paired (h.invariant (P := Paired) ?_ ?_)
  · rintro t ⟨hrecords, hcreated, hintact⟩
    constructor <;> simp [hrecords, hcreated, hintact, Records.empty, Keys.empty, Keys.get,
      Addressed.latest]
  · exact fun t call t' ht hfits hstep ↦ ht.step hfits hstep

/-- Issue 3 of a repository. -/
def issue3 : Conversation := ⟨"o", "r", .issue, "3", "triage", rfl, rfl, rfl, rfl⟩

/-- Its session, created for ten seconds, after some time. -/
def tenSeconds (now : Nat) : Addressed :=
  ⟨Records.empty.createSession 0 "t0" issue3.worktreeKey { ttlSeconds := 10 }, now,
    [("t0", issue3)], ["t0"]⟩

theorem tenSeconds_has (now : Nat) {later : Nat} (hlater : later < 10000) :
    (tenSeconds now).records.streams.has later "t0" = true := by
  simp [tenSeconds, Records.createSession, Keys.expire_modify, Keys.has, hlater]

theorem tenSeconds_lookup {now later : Nat} :
    (tenSeconds now).records.lookups.get later (lookupOf issue3) =
      if later < 10000 then some "t0" else none := by
  simp [tenSeconds, Records.createSession, setexLookup]

theorem tenSeconds_reach {now : Nat} (hnow : now < 10000) :
    (addressing 2592000).ReachWhen Fits (tenSeconds now) := by
  have hinit : (addressing 2592000).ReachWhen Fits ⟨.empty, 0, [], []⟩ := .init ⟨rfl, rfl, rfl⟩
  have hcreate : (addressing 2592000).step ⟨.empty, 0, [], []⟩
      (.createSession "t0" issue3 { ttlSeconds := 10 }) = some (tenSeconds 0) := by
    have hhas := tenSeconds_has 0 (Nat.zero_lt_of_lt hnow)
    simp only [tenSeconds] at hhas
    simp [addressing, Addressed.issue, Addressed.perform, Addressed.settle, Records.apply,
      tenSeconds, hhas]
  have htick : (addressing 2592000).step (tenSeconds 0) (.tick now) = some (tenSeconds now) := by
    have hhas := tenSeconds_has 0 hnow
    simp only [tenSeconds] at hhas
    simp [addressing, Addressed.settle, tenSeconds, hhas]
  exact (hinit.step (LookupCall.createSession "t0" issue3 { ttlSeconds := 10 }) trivial
    hcreate).step (LookupCall.tick now) trivial htick

/-- The session is used again in time for the lookup. -/
theorem agrees_usedAgain :
    ∃ s, (addressing 2592000).ReachWhen Fits s ∧ s.now = 5000 ∧ Agrees s := by
  have hfits : Fits (tenSeconds 5000) (.setRunning "t0" 5) := by
    refine ⟨fun _ ↦ .inl (tenSeconds_has 5000 (by decide)), fun c hlatest _ _ ↦ ?_⟩
    have hc : issue3 = c := by
      by_contra hne
      simp [tenSeconds, Addressed.latest, hne] at hlatest
    rw [← hc]
    exact tenSeconds_lookup.trans (if_pos (by decide))
  have hrun := (tenSeconds_reach (by decide : 5000 < 10000)).step
    (LookupCall.setRunning "t0" 5) hfits rfl
  exact ⟨_, hrun, rfl, agrees_of_fits 2592000 hrun⟩

/-- Used again after five seconds, for ten: the lookup goes five seconds before the hash. -/
theorem not_agrees_always :
    ¬ ∀ (sessionTtl : Nat) (s : Addressed), (addressing sessionTtl).Reach s → Agrees s := by
  intro h
  have hrun := ((tenSeconds_reach (by decide : 5000 < 10000)).reach.step
    (LookupCall.setRunning "t0" 10) trivial rfl).step (LookupCall.tick 5000) trivial rfl
  have hstream {later : Nat} (hlater : later < 15000) :
      ((tenSeconds 5000).records.setRunning 5000 "t0" 10).streams.has later "t0" = true := by
    simp [Records.setRunning, Records.updateStream, Keys.expire_modify, Keys.has, hlater]
  have hintact : "t0" ∈ (((tenSeconds 5000).perform 2592000 (.setRunning "t0" 10)).settle
      ((tenSeconds 5000).records.setRunning 5000 "t0" 10) 10000).intact :=
    List.mem_filter.mpr ⟨List.mem_filter.mpr ⟨List.mem_singleton.mpr rfl, hstream (by decide)⟩,
      hstream (by decide)⟩
  have hlatest : (tenSeconds 5000).latest issue3 = some "t0" := by
    simp [tenSeconds, Addressed.latest]
  have hfound := (h _ _ hrun).stable issue3 "t0" hlatest hintact
  have hlookup : (tenSeconds 5000).records.lookups.get 10000 (lookupOf issue3) = none :=
    tenSeconds_lookup.trans (if_neg (by decide))
  have hlegacy : (tenSeconds 5000).records.lookups.get 10000 (legacyKeyOf issue3.worktreeKey) =
      none :=
    Keys.get_setex_of_ne Keys.empty 0 10000 (lookupOf_ne_legacy issue3 issue3).symm 10 "t0"
  have hnone : (tenSeconds 5000).records.lookedUp 10000 issue3.worktreeKey = none := by
    simp [lookedUp, hlookup, hlegacy]
  have hgone : ((tenSeconds 5000).records.findSession 10000 issue3.worktreeKey).1 = none := by
    simp [Records.findSession, hnone]
  exact absurd (hgone.symm.trans hfound) (by decide)

end GithubAgent.Session
