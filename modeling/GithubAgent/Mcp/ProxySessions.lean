import GithubAgent.Base.EventStream
import GithubAgent.Base.Transition
import GithubAgent.Mcp.Proxy
import GithubAgent.Mcp.Server

/-!
# The sessions of the proxy

`mcp_sse` and `mcp_message` of `src/services/mcp_proxy/main.py` with any number of clients. A
connection has its own server, a process that runs `run_server` of `src/mcp_servers/base.py`;
requests, servers and the generators of the responses are interleaved at every `await`. The ids of
sessions are distinct, bodies are UTF-8, and lines are not longer than the buffer. What a server
writes to its error output and the log are left out.
-/

namespace GithubAgent.Mcp.Proxy

open GithubAgent.Base GithubAgent.Webhook

/-- The text of a `uuid4`. -/
structure SessionId where
  text : String
  newline : '\n' ∉ text.toList
  carriageReturn : '\r' ∉ text.toList
  deriving DecidableEq

/-- A server process: the bodies written to its input, how many lines it has answered, and the lines
of its output that the proxy has not read. -/
structure Process where
  input : List (List Char)
  served : Nat
  pending : List (List Char)
  returncode : Option Int

/-- Where a request for a server stands. A response that is given up before its generator has
begun is `dropped`; `closing` waits in the `finally` of the generator. -/
inductive Stage where
  | idle
  | refused (e : HttpException)
  | starting (launch : Launch) (id : SessionId)
  | opened (id : SessionId)
  | streaming (id : SessionId)
  | closing (id : SessionId)
  | closed (id : SessionId)
  | dropped (id : SessionId)

/-- A request for a server, its process, and what was sent to the client. -/
structure Connection where
  stage : Stage
  process : Process
  sent : List Char

/-- Where a POST stands. -/
inductive Post (C : Type) where
  | idle
  | reading (id : SessionId) (c : C)
  | answered (statusCode : Nat)

/-- The proxy: `sessions`, the requests that wait for `create_subprocess_exec` and the largest
number of them so far, the ids so far, and the bodies that were written to a server. -/
structure State (C Q : Type) where
  sessions : List (SessionId × C)
  starting : List C
  peak : Nat
  used : List SessionId
  conns : C → Connection
  posts : Q → Post C
  written : List (SessionId × List Char)

/-- The machine, and the servers: `json.loads`, and the handler that a connection's server runs. -/
structure Service (C : Type) where
  machine : Machine
  floatText : Json.FloatText
  loads : List Char → Line
  handler : C → Nat → Json → Outcome

/-- The lines a server reads of a body and the line end behind it. -/
def bodyLines (loads : List Char → Line) (body : List Char) : List Line :=
  (finished (· = '\n') (universalNewlines (body ++ ['\n']))).map loads

/-- The lines of the input of a server. -/
def inputLines (loads : List Char → Line) (input : List (List Char)) : List Line :=
  input.flatMap (bodyLines loads)

/-- The first event (`main.py:194-195`). -/
def endpointEvent (id : SessionId) : EventStream.Event :=
  ⟨"endpoint".toList, ("/mcp/message?session_id=" ++ id.text).toList⟩

def message (data : List Char) : EventStream.Event := ⟨"message".toList, data⟩

/-- The event of a line of the server's output, unless it is blank (`main.py:216-218`). -/
def messageEvent (line : List Char) : Option EventStream.Event :=
  let decoded := strip (line ++ ['\n'])
  if decoded = [] then none else some (message decoded)

namespace Stage

/-- The id of the session, from where the request was let in. -/
def id? : Stage → Option SessionId
  | .starting _ id | .opened id | .streaming id | .closing id | .closed id | .dropped id => some id
  | .idle | .refused _ => none

/-- The id of a session whose process was started. -/
def running : Stage → Option SessionId
  | .opened id | .streaming id | .closing id | .closed id | .dropped id => some id
  | .idle | .refused _ | .starting _ _ => none

/-- The id of a session that nothing has taken out of `sessions`, but for a POST. -/
def active : Stage → Option SessionId
  | .opened id | .streaming id | .closing id | .dropped id => some id
  | .idle | .refused _ | .starting _ _ | .closed _ => none

/-- The id of a session whose client has its first event. -/
def begun : Stage → Option SessionId
  | .streaming id | .closing id | .closed id => some id
  | .idle | .refused _ | .starting _ _ | .opened _ | .dropped _ => none

end Stage

/-- What happens: a request for a server comes in and its process is started or not; the generator
begins, reads a line, is over, or never begins; a server answers a line or exits; the wait for
a process that was terminated ends; a POST comes in, and its body. -/
inductive Event (C Q : Type) where
  | connect (c : C) (serverName : String) (query : List Char) (id : SessionId)
  | started (c : C) (ok : Bool)
  | begin (c : C)
  | read (c : C)
  | finish (c : C)
  | drop (c : C)
  | serve (c : C)
  | exit (c : C) (code : Int)
  | reap (c : C)
  | post (q : Q) (id : SessionId)
  | body (q : Q) (text : List Char) (ok : Bool)

section Model

variable {C Q : Type} [DecidableEq C] [DecidableEq Q]

def State.setConn (s : State C Q) (c : C) (conn : Connection) : State C Q :=
  { s with conns := Function.update s.conns c conn }

def State.setPost (s : State C Q) (q : Q) (post : Post C) : State C Q :=
  { s with posts := Function.update s.posts q post }

/-- `sessions.pop(session_id, None)`. -/
def State.pop (s : State C Q) (id : SessionId) : State C Q :=
  { s with sessions := s.sessions.filter fun entry ↦ entry.1 ≠ id }

/-- What a server writes for its next line. -/
def Process.answers (sv : Service C) (c : C) (p : Process) (line : Line) : List (List Char) :=
  (handleLine sv.floatText (sv.handler c) p.served line).map (·.dumps sv.floatText)

/-- One step. -/
def State.step (sv : Service C) (s : State C Q) : Event C Q → Option (State C Q)
  -- `main.py:127-161`
  | .connect c serverName query id =>
    match (s.conns c).stage with
    | .idle =>
      if id ∈ s.used then none
      else
        match admission sv.machine s.sessions.length serverName query with
        | .error e => some (s.setConn c { s.conns c with stage := .refused e })
        | .ok launch => some { s.setConn c { s.conns c with stage := .starting launch id } with
            starting := c :: s.starting,
            peak := max s.peak (s.starting.length + 1),
            used := id :: s.used }
    | _ => none
  -- `main.py:163-177`
  | .started c ok =>
    match (s.conns c).stage with
    | .starting _ id =>
      if ok = true then some { s.setConn c { s.conns c with stage := .opened id } with
        starting := s.starting.erase c,
        sessions := s.sessions ++ [(id, c)] }
      else some { s.setConn c { s.conns c with
          stage := .refused ⟨500, "Failed to start server process"⟩ } with
        starting := s.starting.erase c }
    | _ => none
  -- `main.py:191-218`
  | .begin c =>
    match (s.conns c).stage with
    | .opened id => some (s.setConn c { s.conns c with
        stage := .streaming id,
        sent := (s.conns c).sent ++ EventStream.encode (endpointEvent id) })
    | _ => none
  | .read c =>
    match (s.conns c).stage, (s.conns c).process.pending with
    | .streaming _, line :: rest => some (s.setConn c { s.conns c with
        process := { (s.conns c).process with pending := rest },
        sent := (s.conns c).sent ++ (messageEvent line).toList.flatMap EventStream.encode })
    | _, _ => none
  | .drop c =>
    match (s.conns c).stage with
    | .opened id => some (s.setConn c { s.conns c with stage := .dropped id })
    | _ => none
  -- `main.py:222-230`
  | .finish c =>
    match (s.conns c).stage with
    | .streaming id =>
      if (s.conns c).process.returncode = none then
        some (s.setConn c { s.conns c with stage := .closing id })
      else some ((s.setConn c { s.conns c with stage := .closed id }).pop id)
    | _ => none
  | .reap c =>
    match (s.conns c).stage with
    | .closing id => some ((s.setConn c { s.conns c with
        stage := .closed id,
        process := { (s.conns c).process with
          returncode := some ((s.conns c).process.returncode.getD (-15)) } }).pop id)
    | _ => none
  -- `base.py:45-109`
  | .serve c =>
    if (s.conns c).stage.running ≠ none ∧ (s.conns c).process.returncode = none then
      (inputLines sv.loads (s.conns c).process.input)[(s.conns c).process.served]?.map fun line ↦
        s.setConn c { s.conns c with process := { (s.conns c).process with
          served := (s.conns c).process.served + 1,
          pending := (s.conns c).process.pending ++ (s.conns c).process.answers sv c line } }
    else none
  | .exit c code =>
    if (s.conns c).stage.running ≠ none ∧ (s.conns c).process.returncode = none then
      some (s.setConn c { s.conns c with process := { (s.conns c).process with
        returncode := some code } })
    else none
  -- `main.py:237-245`
  | .post q id =>
    match s.posts q with
    | .idle =>
      match s.sessions.lookup id with
      | none => some (s.setPost q (.answered 404))
      | some c =>
        if (s.conns c).process.returncode = none then some (s.setPost q (.reading id c))
        else some ((s.setPost q (.answered 400)).pop id)
    | _ => none
  -- `main.py:247-258`; what is written to a process that has exited is lost
  | .body q text ok =>
    match s.posts q with
    | .reading id c =>
      if (s.conns c).process.returncode = none then
        some { (s.setConn c { s.conns c with process := { (s.conns c).process with
            input := (s.conns c).process.input ++ [text] } }).setPost q
              (.answered (if ok = true then 202 else 500)) with
          written := s.written ++ [(id, text)] }
      else some (s.setPost q (.answered (if ok = true then 202 else 500)))
    | _ => none

/-- Nobody has asked for anything. -/
def State.initial : State C Q where
  sessions := []
  starting := []
  peak := 0
  used := []
  conns := fun _ ↦ ⟨.idle, ⟨[], 0, [], none⟩, []⟩
  posts := fun _ ↦ .idle
  written := []

/-- The proxy with its clients and servers. -/
def proxy (C Q : Type) [DecidableEq C] [DecidableEq Q] (sv : Service C) :
    System (State C Q) (Event C Q) where
  init := fun s ↦ s = .initial
  step := State.step sv

/-- What the server of a connection has answered so far. -/
def Connection.outputs (sv : Service C) (c : C) (conn : Connection) : List (List Char) :=
  (((runServer sv.floatText (sv.handler c) (inputLines sv.loads conn.process.input)).take
    conn.process.served).flatten).map (·.dumps sv.floatText)

/-- Talking to a server through the proxy is talking to the server: an open session is one
connection's, its server reads the bodies that were posted to it, in order, and its client gets
the endpoint and then what the server answered, in order and each once, up to what has not been
read yet. The limit is exceeded only by requests that were let in while others were starting. -/
structure Relays (sv : Service C) (s : State C Q) : Prop where
  capacity : s.sessions.length < maxMcpSessions + s.peak
  owned : ∀ id c, (id, c) ∈ s.sessions → (s.conns c).stage.active = some id
  registered : ∀ c id, (s.conns c).stage.active = some id →
    (id, c) ∈ s.sessions ∨ (s.conns c).process.returncode ≠ none
  routed : ∀ c id, (s.conns c).stage.running = some id →
    (s.conns c).process.input = (s.written.filter (·.1 = id)).map Prod.snd
  relayed : ∀ c id, (s.conns c).stage.begun = some id → ∃ received,
    EventStream.parse (s.conns c).sent = endpointEvent id :: received.map message ∧
      received ++ (s.conns c).process.pending = (s.conns c).outputs sv c

end Model

end GithubAgent.Mcp.Proxy
