import GithubAgent.Base.Strings
import Mathlib.Data.List.Induction

/-!
# The client of the database

`src/shared/surrealdb_client.py` keeps one client for the process, with what it was signed in with,
and a circuit breaker for signing in again. Whether the server opens a connection, takes a sign-in
and answers a query is given for every call.
-/

namespace GithubAgent.Shared.Surreal

open GithubAgent.Base

/-- The keys of `_surreal_creds` that belong to the synchronous client. -/
structure Creds where
  url : String
  user : String
  password : String
  ns : String
  db : String
  deriving DecidableEq

/-- A client with what it has been told by `signin` and `use`. -/
structure Client where
  url : String
  signedIn : Option (String × String) := none
  selected : Option (String × String) := none
  closed : Bool := false
  deriving DecidableEq

/-- The state of the module (`surrealdb_client.py:30-43`). -/
structure Module where
  surreal : Option Client := none
  creds : Option Creds := none
  initialized : Bool := false
  reauthFailureCount : Nat := 0

/-- What the server makes of `Surreal(url)`, `signin` and `use`. -/
structure Server where
  opens : Except String Unit
  signin : Except String Unit
  use : Except String Unit

/-- The server does all of it. -/
def Server.healthy : Server := ⟨.ok (), .ok (), .ok ()⟩

/-- The arguments of `init_surrealdb`. -/
structure InitArgs where
  url : Option String := none
  user : Option String := none
  password : Option String := none
  ns : Option String := none
  db : Option String := none

/-- `value or default`. -/
def orDefault (value : Option String) (default : String) : String :=
  match value with
  | some text => if text = "" then default else text
  | none => default

/-- What is signed in with (`surrealdb_client.py:95-99`). -/
def InitArgs.creds (args : InitArgs) (defaults : Creds) : Creds where
  url := orDefault args.url defaults.url
  user := orDefault args.user defaults.user
  password := orDefault args.password defaults.password
  ns := orDefault args.ns defaults.ns
  db := orDefault args.db defaults.db

/-! ### The functions -/

/-- `_max_reauth_failures`. -/
def maxReauthFailures : Nat := 3

/-- `Surreal(url)`, `signin` and `use` (`surrealdb_client.py:101-103, 221-228`). The global is
assigned after the first of them; before, it has the value that is given. -/
def connect (c : Creds) (before : Option Client) (server : Server) :
    Option Client × Except String Client :=
  match server.opens with
  | .error e => (before, .error e)
  | .ok _ =>
    let client : Client := { url := c.url }
    match server.signin with
    | .error e => (some client, .error e)
    | .ok _ =>
      let client := { client with signedIn := some (c.user, c.password) }
      match server.use with
      | .error e => (some client, .error e)
      | .ok _ =>
        let client := { client with selected := some (c.ns, c.db) }
        (some client, .ok client)

section Functions

variable (s : Module)

/-- `init_surrealdb` (`surrealdb_client.py:66-109`). -/
def initSurrealdb (defaults : Creds) (args : InitArgs) (server : Server) :
    Module × Except String Client :=
  match s.surreal with
  | some client => (s, .ok client)
  | none =>
    let c := args.creds defaults
    match connect c none server with
    | (surreal, .error e) => ({ s with surreal := surreal }, .error e)
    | (surreal, .ok client) =>
      ({ s with surreal := surreal, creds := some c, initialized := true }, .ok client)

/-- `get_surreal` (`surrealdb_client.py:161-172`). -/
def getSurreal : Except String Client :=
  match s.surreal with
  | some client => .ok client
  | none => .error "SurrealDB not initialized. Call init_surrealdb() first."

/-- `is_initialized` (`surrealdb_client.py:277-279`). -/
def isInitialized : Bool := s.initialized && s.surreal.isSome

/-- `reauthenticate_surreal` (`surrealdb_client.py:191-238`). -/
def reauthenticateSurreal (server : Server) : Module × Except String Unit :=
  match s.surreal, s.creds with
  | some client, some c =>
    if maxReauthFailures ≤ s.reauthFailureCount then
      (s, .error ("SurrealDB re-authentication failed " ++ toString s.reauthFailureCount ++
        " consecutive times. Circuit breaker tripped — giving up."))
    else
      match connect c (some { client with closed := true }) server with
      | (surreal, .error e) =>
        ({ s with surreal := surreal, reauthFailureCount := s.reauthFailureCount + 1 }, .error e)
      | (surreal, .ok _) => ({ s with surreal := surreal, reauthFailureCount := 0 }, .ok ())
  | _, _ => (s, .error "SurrealDB not initialized. Call init_surrealdb() first.")

/-- `"401" in err_msg or "Unauthorized" in err_msg`. -/
def isUnauthorized (message : String) : Bool :=
  occursIn "401" message || occursIn "Unauthorized" message

/-- `query_surreal` (`surrealdb_client.py:241-274`), with the replies to the query and to the query
that follows when it signs in again. The rows are left out. -/
def querySurreal (first second : Except String Unit) (server : Server) :
    Module × Except String Unit :=
  if maxReauthFailures ≤ s.reauthFailureCount then
    (s, .error ("SurrealDB circuit breaker open — " ++ toString s.reauthFailureCount ++
      " consecutive re-auth failures. Will not retry."))
  else
    match getSurreal s with
    | .error e => (s, .error e)
    | .ok _ =>
      match first with
      | .ok _ => ({ s with reauthFailureCount := 0 }, .ok ())
      | .error message =>
        if isUnauthorized message then
          match reauthenticateSurreal s server with
          | (s, .error e) => (s, .error e)
          | (s, .ok _) => (s, second)
        else (s, .error message)

/-- `close_surreal` (`surrealdb_client.py:292-306`). -/
def closeSurreal : Module := {}

end Functions

/-- A call with what the server makes of it. -/
inductive Call where
  | init (args : InitArgs) (server : Server)
  | reauthenticate (server : Server)
  | query (first second : Except String Unit) (server : Server)
  | close

/-- The state behind a call, and whether it raises. -/
def Call.apply (defaults : Creds) (s : Module) : Call → Module × Except String Unit
  | .init args server =>
    let (s, reply) := initSurrealdb s defaults args server
    (s, reply.map fun _ ↦ ())
  | .reauthenticate server => reauthenticateSurreal s server
  | .query first second server => querySurreal s first second server
  | .close => (closeSurreal, .ok ())

/-- The state behind a sequence of calls. -/
def afterCalls (defaults : Creds) (calls : List Call) : Module :=
  calls.foldl (fun s call ↦ (call.apply defaults s).1) {}

/-! ### Clients that are ready -/

/-- The client has completed `signin` and `use` with the credentials. -/
structure Client.Completed (client : Client) (c : Creds) : Prop where
  url : client.url = c.url
  signedIn : client.signedIn = some (c.user, c.password)
  selected : client.selected = some (c.ns, c.db)

/-- The client has completed them with the stored credentials, and the module says so. -/
def Ready (s : Module) (client : Client) : Prop :=
  (∃ c, s.creds = some c ∧ client.Completed c) ∧ isInitialized s = true

/-- Whatever a client is returned by is ready with it. -/
structure ReturnsReady (defaults : Creds) (s : Module) : Prop where
  getSurreal : ∀ client, getSurreal s = .ok client → Ready s client
  initSurrealdb : ∀ args server client, (initSurrealdb s defaults args server).2 = .ok client →
    Ready (initSurrealdb s defaults args server).1 client

/-- With a healthy server, `init_surrealdb` returns a client that is connected and ready. -/
def Recovers (defaults : Creds) (s : Module) : Prop :=
  ∀ args, ∃ client, (initSurrealdb s defaults args .healthy).2 = .ok client ∧
    client.closed = false ∧ Ready (initSurrealdb s defaults args .healthy).1 client

/-- In every state of the calls, the clients that are returned are ready, and the module recovers
from every call that raises. -/
structure IsAtomic (defaults : Creds) (calls : List Call) : Prop where
  ready : ∀ p, p <+: calls → ReturnsReady defaults (afterCalls defaults p)
  recovers : ∀ p call, p ++ [call] <+: calls → ∀ e,
    (call.apply defaults (afterCalls defaults p)).2 = .error e →
    Recovers defaults (afterCalls defaults (p ++ [call]))

/-- The server opens the connection, takes the sign-in and selects the database. -/
structure Server.Works (server : Server) : Prop where
  opens : server.opens = .ok ()
  signin : server.signin = .ok ()
  use : server.use = .ok ()

/-- A call of `reauthenticate_surreal` connects. -/
def Reconnects (s : Module) : Prop :=
  s.surreal.isSome = true ∧ s.creds.isSome = true ∧ s.reauthFailureCount < maxReauthFailures

/-- Nothing fails once the old connection is closed or the new one is open. -/
def Call.Whole (s : Module) : Call → Prop
  | .init _ server => s.surreal = none → server.opens = .ok () → server.Works
  | .reauthenticate server => Reconnects s → server.Works
  | .query first _ server =>
    Reconnects s → (∃ message, first = .error message ∧ isUnauthorized message = true) →
      server.Works
  | .close => True

/-! ### What a call can do -/

theorem error_ne_ok {A : Type} {e : String} {a : A} (h : Except.error e = Except.ok a) : False := by
  cases h

/-- Opening fails, or a step behind it fails and the client is not ready, or all of it works. -/
theorem connect_cases (c : Creds) (before : Option Client) (server : Server) :
    (∃ e, server.opens = .error e ∧ connect c before server = (before, .error e)) ∨
    (∃ client e, server.opens = .ok () ∧ ¬ server.Works ∧
      connect c before server = (some client, .error e) ∧ client.selected = none) ∨
    (server.Works ∧ ∃ client, connect c before server = (some client, .ok client) ∧
      client.Completed c ∧ client.closed = false) := by
  unfold connect
  cases hopens : server.opens with
  | error e => exact Or.inl ⟨e, rfl, rfl⟩
  | ok _ =>
    refine Or.inr ?_
    cases hsignin : server.signin with
    | error e =>
      have hfails : ¬ server.Works := fun h ↦ error_ne_ok (hsignin.symm.trans h.signin)
      exact Or.inl ⟨_, e, rfl, hfails, rfl, rfl⟩
    | ok _ =>
      cases huse : server.use with
      | error e =>
        have hfails : ¬ server.Works := fun h ↦ error_ne_ok (huse.symm.trans h.use)
        exact Or.inl ⟨_, e, rfl, hfails, rfl, rfl⟩
      | ok _ => exact Or.inr ⟨⟨hopens, hsignin, huse⟩, _, rfl, ⟨rfl, rfl, rfl⟩, rfl⟩

/-- There is no client, or it is connected and ready. -/
def Settled (s : Module) : Prop :=
  ∀ client, s.surreal = some client → client.closed = false ∧ Ready s client

/-- A client that is not connected and ready. -/
def Broken (s : Module) : Prop :=
  ∃ client, s.surreal = some client ∧ (client.selected = none ∨ client.closed = true)

section Calls

variable {s : Module} {defaults : Creds}

theorem initSurrealdb_of_some {client : Client} (h : s.surreal = some client) (args : InitArgs)
    (server : Server) : initSurrealdb s defaults args server = (s, .ok client) := by
  rw [initSurrealdb, h]

/-- Without a client, `init_surrealdb` connects. -/
theorem initSurrealdb_cases (h : s.surreal = none) (args : InitArgs) (server : Server) :
    (∃ e, server.opens = .error e ∧ initSurrealdb s defaults args server = (s, .error e)) ∨
    (∃ client e, server.opens = .ok () ∧ ¬ server.Works ∧ client.selected = none ∧
      initSurrealdb s defaults args server = ({ s with surreal := some client }, .error e)) ∨
    (server.Works ∧ ∃ client, client.Completed (args.creds defaults) ∧ client.closed = false ∧
      initSurrealdb s defaults args server =
        ({ s with surreal := some client, creds := some (args.creds defaults), initialized := true },
          .ok client)) := by
  rw [initSurrealdb, h]
  dsimp only
  rcases connect_cases (args.creds defaults) none server with
    ⟨e, hopens, hconnect⟩ | ⟨client, e, hopens, hfails, hconnect, hnone⟩ |
    ⟨hworks, client, hconnect, hcompleted, hopen⟩
  · refine Or.inl ⟨e, hopens, ?_⟩
    rw [hconnect]
    exact congrArg (·, Except.error e) (by rw [← h])
  · exact Or.inr (Or.inl ⟨client, e, hopens, hfails, hnone, by rw [hconnect]⟩)
  · exact Or.inr (Or.inr ⟨hworks, client, hcompleted, hopen, by rw [hconnect]⟩)

/-- `reauthenticate_surreal` changes nothing, or reconnects: it leaves a client that is not
connected and ready, or one that is. -/
theorem reauthenticateSurreal_cases (s : Module) (server : Server) :
    (¬ Reconnects s ∧ ∃ e, reauthenticateSurreal s server = (s, .error e)) ∨
    (Reconnects s ∧ ¬ server.Works ∧ ∃ client e, (client.selected = none ∨ client.closed = true) ∧
      reauthenticateSurreal s server = ({ s with
        surreal := some client
        reauthFailureCount := s.reauthFailureCount + 1 }, .error e)) ∨
    (Reconnects s ∧ server.Works ∧ ∃ c client, s.creds = some c ∧ client.Completed c ∧
      client.closed = false ∧ reauthenticateSurreal s server =
        ({ s with surreal := some client, reauthFailureCount := 0 }, .ok ())) := by
  unfold reauthenticateSurreal
  cases hsurreal : s.surreal with
  | none =>
    have hnot : ¬ Reconnects s := fun h ↦
      Bool.false_ne_true ((congrArg Option.isSome hsurreal).symm.trans h.1)
    exact Or.inl ⟨hnot, _, rfl⟩
  | some old =>
    cases hcreds : s.creds with
    | none =>
      have hnot : ¬ Reconnects s := fun h ↦
        Bool.false_ne_true ((congrArg Option.isSome hcreds).symm.trans h.2.1)
      exact Or.inl ⟨hnot, _, rfl⟩
    | some c =>
      by_cases hbreaker : maxReauthFailures ≤ s.reauthFailureCount
      · exact Or.inl ⟨fun h ↦ h.2.2.not_ge hbreaker, _, if_pos hbreaker⟩
      · refine Or.inr ?_
        have hreconnects : Reconnects s :=
          ⟨by rw [hsurreal]; rfl, by rw [hcreds]; rfl, Nat.not_le.mp hbreaker⟩
        dsimp only
        rw [if_neg hbreaker]
        rcases connect_cases c (some { old with closed := true }) server with
          ⟨e, hopens, hconnect⟩ | ⟨client, e, _, hfails, hconnect, hnone⟩ |
          ⟨hworks, client, hconnect, hcompleted, hopen⟩
        · have hfails : ¬ server.Works := fun h ↦ error_ne_ok (hopens.symm.trans h.opens)
          exact Or.inl ⟨hreconnects, hfails, _, e, Or.inr rfl, by rw [hconnect]⟩
        · exact Or.inl ⟨hreconnects, hfails, client, e, Or.inl hnone, by rw [hconnect]⟩
        · exact Or.inr ⟨hreconnects, hworks, c, client, rfl, hcompleted, hopen, by rw [hconnect]⟩

/-- A query reconnects when the reply asks for it, and else changes nothing but the breaker. -/
theorem querySurreal_cases (s : Module) (first second : Except String Unit) (server : Server) :
    (∃ message, first = .error message ∧ isUnauthorized message = true ∧
      (querySurreal s first second server).1 = (reauthenticateSurreal s server).1 ∧
      ∀ e, (reauthenticateSurreal s server).2 = .error e →
        (querySurreal s first second server).2 = .error e) ∨
    ((∀ message, first = .error message → isUnauthorized message = true → ¬ Reconnects s) ∧
      ∃ count, (querySurreal s first second server).1 = { s with reauthFailureCount := count }) := by
  unfold querySurreal getSurreal
  by_cases hbreaker : maxReauthFailures ≤ s.reauthFailureCount
  · rw [if_pos hbreaker]
    exact Or.inr ⟨fun _ _ _ h ↦ h.2.2.not_ge hbreaker, _, rfl⟩
  · rw [if_neg hbreaker]
    cases hsurreal : s.surreal with
    | none =>
      have hnot : ¬ Reconnects s := fun h ↦
        Bool.false_ne_true ((congrArg Option.isSome hsurreal).symm.trans h.1)
      exact Or.inr ⟨fun _ _ _ ↦ hnot, s.reauthFailureCount,
        congrArg (fun c ↦ ({ s with surreal := c } : Module)) hsurreal⟩
    | some client =>
      cases first with
      | ok _ =>
        exact Or.inr ⟨fun _ h ↦ (error_ne_ok h.symm).elim, 0, rfl⟩
      | error message =>
        dsimp only
        by_cases hunauthorized : isUnauthorized message = true
        · refine Or.inl ⟨message, rfl, hunauthorized, ?_⟩
          rw [if_pos hunauthorized]
          rcases reauthenticateSurreal s server with ⟨s', e | _⟩
          · exact ⟨rfl, fun _ h ↦ h⟩
          · exact ⟨rfl, fun _ h ↦ (error_ne_ok h.symm).elim⟩
        · rw [if_neg hunauthorized]
          refine Or.inr ⟨fun m h hm ↦ ?_, s.reauthFailureCount,
            congrArg (fun c ↦ ({ s with surreal := c } : Module)) hsurreal⟩
          cases h
          exact (hunauthorized hm).elim

theorem getSurreal_eq_ok {client : Client} :
    getSurreal s = .ok client ↔ s.surreal = some client := by
  unfold getSurreal
  cases s.surreal with
  | none => exact ⟨fun h ↦ (error_ne_ok h).elim, fun h ↦ (Option.some_ne_none _ h.symm).elim⟩
  | some other =>
    exact ⟨fun h ↦ congrArg some (Except.ok.inj h), fun h ↦ congrArg _ (Option.some.inj h)⟩

/-- Credentials that are stored with the client make it ready. -/
theorem ready_of_completed {client : Client} {c : Creds} (hsurreal : s.surreal = some client)
    (hcreds : s.creds = some c) (hinitialized : s.initialized = true)
    (hcompleted : client.Completed c) : Ready s client :=
  ⟨⟨c, hcreds, hcompleted⟩, by rw [isInitialized, hinitialized, hsurreal]; rfl⟩

/-! ### Calls that go through -/

theorem Settled.returnsReady (h : Settled s) : ReturnsReady defaults s where
  getSurreal := fun client hget ↦ (h client (getSurreal_eq_ok.mp hget)).2
  initSurrealdb := by
    intro args server client hinit
    cases hsurreal : s.surreal with
    | some other =>
      rw [initSurrealdb_of_some hsurreal] at hinit ⊢
      exact Except.ok.inj hinit ▸ (h other hsurreal).2
    | none =>
      rcases initSurrealdb_cases hsurreal args server with
        ⟨e, _, heq⟩ | ⟨_, e, _, _, _, heq⟩ | ⟨_, new, hcompleted, _, heq⟩
      · rw [heq] at hinit
        exact (error_ne_ok hinit).elim
      · rw [heq] at hinit
        exact (error_ne_ok hinit).elim
      · rw [heq] at hinit ⊢
        exact Except.ok.inj hinit ▸ ready_of_completed rfl rfl rfl hcompleted

theorem Settled.recovers (h : Settled s) : Recovers defaults s := by
  intro args
  cases hsurreal : s.surreal with
  | some client =>
    rw [initSurrealdb_of_some hsurreal]
    exact ⟨client, rfl, h client hsurreal⟩
  | none =>
    rcases initSurrealdb_cases hsurreal args .healthy with
      ⟨e, hopens, _⟩ | ⟨_, e, _, hfails, _, _⟩ | ⟨_, client, hcompleted, hopen, heq⟩
    · exact (error_ne_ok hopens.symm).elim
    · exact (hfails ⟨rfl, rfl, rfl⟩).elim
    · rw [heq]
      exact ⟨client, rfl, hopen, ready_of_completed rfl rfl rfl hcompleted⟩

theorem Settled.reauthenticate (h : Settled s) {server : Server}
    (hwhole : Reconnects s → server.Works) : Settled (reauthenticateSurreal s server).1 := by
  rcases reauthenticateSurreal_cases s server with
    ⟨_, e, heq⟩ | ⟨hreconnects, hfails, _⟩ |
    ⟨hreconnects, _, c, client, hcreds, hcompleted, hopen, heq⟩
  · rw [heq]
    exact h
  · exact (hfails (hwhole hreconnects)).elim
  · rw [heq]
    intro client' hclient'
    obtain rfl := Option.some.inj hclient'
    -- there was a client before, so the module is initialised
    have hinitialized : s.initialized = true := by
      obtain ⟨old, hold⟩ := Option.isSome_iff_exists.mp hreconnects.1
      exact (Bool.and_eq_true_iff.mp (h old hold).2.2).1
    exact ⟨hopen, ready_of_completed rfl hcreds hinitialized hcompleted⟩

/-- A call that goes through leaves no client behind that is not connected and ready. -/
theorem Settled.apply (h : Settled s) {call : Call} (hwhole : call.Whole s) :
    Settled (call.apply defaults s).1 := by
  cases call with
  | init args server =>
    change Settled (initSurrealdb s defaults args server).1
    cases hsurreal : s.surreal with
    | some client =>
      rw [initSurrealdb_of_some hsurreal]
      exact h
    | none =>
      rcases initSurrealdb_cases hsurreal args server with
        ⟨e, _, heq⟩ | ⟨_, e, hopens, hfails, _, _⟩ | ⟨_, client, hcompleted, hopen, heq⟩
      · rw [heq]
        exact h
      · exact (hfails (hwhole hsurreal hopens)).elim
      · rw [heq]
        intro client' hclient'
        obtain rfl := Option.some.inj hclient'
        exact ⟨hopen, ready_of_completed rfl rfl rfl hcompleted⟩
  | reauthenticate server => exact h.reauthenticate hwhole
  | query first second server =>
    change Settled (querySurreal s first second server).1
    rcases querySurreal_cases s first second server with
      ⟨message, hfirst, hunauthorized, heq, _⟩ | ⟨_, count, heq⟩
    · rw [heq]
      exact h.reauthenticate fun hreconnects ↦ hwhole hreconnects ⟨message, hfirst, hunauthorized⟩
    · rw [heq]
      exact h
  | close => exact fun client hclient ↦ (Option.some_ne_none client hclient.symm).elim

/-! ### Calls that fail on the way -/

theorem broken_reauthenticate {server : Server} (h : Reconnects s) (hfails : ¬ server.Works) :
    Broken (reauthenticateSurreal s server).1 ∧
      ∃ e, (reauthenticateSurreal s server).2 = .error e := by
  rcases reauthenticateSurreal_cases s server with
    ⟨hnot, _⟩ | ⟨_, _, client, e, hbroken, heq⟩ | ⟨_, hworks, _⟩
  · exact (hnot h).elim
  · rw [heq]
    exact ⟨⟨client, rfl, hbroken⟩, e, rfl⟩
  · exact (hfails hworks).elim

/-- A call that fails on the way raises, and leaves its client behind. -/
theorem broken_apply (defaults : Creds) {call : Call} (h : ¬ call.Whole s) :
    Broken (call.apply defaults s).1 ∧ ∃ e, (call.apply defaults s).2 = .error e := by
  cases call with
  | init args server =>
    obtain ⟨hsurreal, h⟩ := Classical.not_imp.mp h
    obtain ⟨hopens, hfails⟩ := Classical.not_imp.mp h
    rcases initSurrealdb_cases hsurreal args server with
      ⟨e, hrefused, _⟩ | ⟨client, e, _, _, hnone, heq⟩ | ⟨hworks, _⟩
    · exact (error_ne_ok (hrefused.symm.trans hopens)).elim
    · rw [Call.apply, heq]
      exact ⟨⟨client, rfl, Or.inl hnone⟩, e, rfl⟩
    · exact (hfails hworks).elim
  | reauthenticate server =>
    obtain ⟨hreconnects, hfails⟩ := Classical.not_imp.mp h
    exact broken_reauthenticate hreconnects hfails
  | query first second server =>
    obtain ⟨hreconnects, h⟩ := Classical.not_imp.mp h
    obtain ⟨⟨message, hfirst, hunauthorized⟩, hfails⟩ := Classical.not_imp.mp h
    obtain ⟨hbroken, e, herror⟩ := broken_reauthenticate hreconnects hfails
    rcases querySurreal_cases s first second server with ⟨_, _, _, heq, hraises⟩ | ⟨hnot, _⟩
    · exact ⟨heq.symm ▸ hbroken, e, hraises e herror⟩
    · exact (hnot message hfirst hunauthorized hreconnects).elim
  | close => exact (h trivial).elim

/-- With such a client, a function returns one that is not ready, or the module does not recover. -/
theorem Broken.not_returnsReady (h : Broken s) :
    ¬ (ReturnsReady defaults s ∧ Recovers defaults s) := by
  rintro ⟨hready, hrecovers⟩
  obtain ⟨client, hsurreal, hnone | hclosed⟩ := h
  · obtain ⟨⟨c, _, hcompleted⟩, _⟩ := hready.getSurreal client (getSurreal_eq_ok.mpr hsurreal)
    exact Option.some_ne_none _ (hcompleted.selected.symm.trans hnone)
  · obtain ⟨other, hreturned, hopen, _⟩ := hrecovers {}
    rw [initSurrealdb_of_some hsurreal] at hreturned
    obtain rfl := Except.ok.inj hreturned
    exact Bool.false_ne_true (hopen.symm.trans hclosed)

end Calls

/-! ### Sequences of calls -/

theorem afterCalls_concat (defaults : Creds) (p : List Call) (call : Call) :
    afterCalls defaults (p ++ [call]) = (call.apply defaults (afterCalls defaults p)).1 := by
  rw [afterCalls, List.foldl_append]
  rfl

/-- What is settled at the start stays settled while every call goes through. -/
theorem settled_afterCalls {defaults : Creds} {calls : List Call}
    (h : ∀ p call, p ++ [call] <+: calls → call.Whole (afterCalls defaults p)) :
    Settled (afterCalls defaults calls) := by
  induction calls using List.reverseRecOn with
  | nil => exact fun client hclient ↦ (Option.some_ne_none client hclient.symm).elim
  | append_singleton calls call ih =>
    rw [afterCalls_concat]
    refine Settled.apply (ih fun p other hp ↦ ?_) (h calls call List.prefix_rfl)
    exact h p other (hp.trans (List.prefix_append calls [call]))

/-- The initialisation is atomic in a sequence of calls exactly when none of them fails on the
way. -/
theorem isAtomic_iff (defaults : Creds) (calls : List Call) :
    IsAtomic defaults calls ↔
      ∀ p call, p ++ [call] <+: calls → call.Whole (afterCalls defaults p) := by
  constructor
  · intro h p call hp
    by_contra hfails
    obtain ⟨hbroken, e, herror⟩ := broken_apply defaults hfails
    rw [← afterCalls_concat] at hbroken
    exact hbroken.not_returnsReady ⟨h.ready _ hp, h.recovers p call hp e herror⟩
  · intro h
    have hsettled : ∀ p, p <+: calls → Settled (afterCalls defaults p) := fun p hp ↦
      settled_afterCalls fun q call hq ↦ h q call (hq.trans hp)
    exact ⟨fun p hp ↦ (hsettled p hp).returnsReady,
      fun p call hp _ _ ↦ (hsettled _ hp).recovers⟩

/-- The server opens the connection and takes no sign-in. -/
def refusesSignin : Server := ⟨.ok (), .error "Authentication failed", .ok ()⟩

/-- After a sign-in that failed, the next call returns the client without one. -/
theorem not_isAtomic_refusesSignin :
    ¬ IsAtomic ⟨"ws://localhost:8000/rpc", "root", "root", "bot", "codebase"⟩
      [.init {} refusesSignin] := by
  intro h
  have hready := (h.ready _ List.prefix_rfl).initSurrealdb {} .healthy
    { url := "ws://localhost:8000/rpc" } rfl
  exact Bool.false_ne_true hready.2

end GithubAgent.Shared.Surreal
