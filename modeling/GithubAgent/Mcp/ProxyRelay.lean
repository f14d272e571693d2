import GithubAgent.Mcp.ProxySessions
import GithubAgent.Webhook.Command

/-!
# Talking through the proxy

Whatever the order of the requests, a session of the proxy relays the lines between one client and
one server, and the limit on sessions is exceeded only by requests that were let in while others
were starting.
-/

namespace GithubAgent.Mcp.Proxy

open GithubAgent.Base GithubAgent.Webhook

/-! ### One connection -/

section Connection

variable {C : Type} {sv : Service C} {c : C} {conn : Connection}

/-- The client has what was read, and the rest is pending. -/
structure Relayed (sv : Service C) (c : C) (conn : Connection) : Prop where
  served : conn.process.served ≤ (inputLines sv.loads conn.process.input).length
  relayed : ∃ received, received ++ conn.process.pending = conn.outputs sv c ∧
    match conn.stage.begun with
    | some id => conn.sent = EventStream.encode (endpointEvent id) ++
        (received.filterMap messageEvent).flatMap EventStream.encode
    | none => received = [] ∧ conn.sent = []

theorem relayed_new {stage : Stage} (h : stage.begun = none) :
    Relayed sv c ⟨stage, ⟨[], 0, [], none⟩, []⟩ where
  served := Nat.le_refl 0
  relayed := by
    refine ⟨[], rfl, ?_⟩
    rw [h]
    exact ⟨rfl, rfl⟩

theorem Relayed.setStage (h : Relayed sv c conn) {stage : Stage}
    (hbegun : stage.begun = conn.stage.begun) : Relayed sv c { conn with stage := stage } where
  served := h.served
  relayed := by
    obtain ⟨received, houtputs, hsent⟩ := h.relayed
    refine ⟨received, houtputs, ?_⟩
    dsimp only
    rwa [hbegun]

theorem Relayed.setReturncode (h : Relayed sv c conn) (code : Option Int) :
    Relayed sv c { conn with process := { conn.process with returncode := code } } :=
  ⟨h.served, h.relayed⟩

theorem Relayed.begin (h : Relayed sv c conn) {id : SessionId} (hstage : conn.stage = .opened id) :
    Relayed sv c { conn with
      stage := .streaming id,
      sent := conn.sent ++ EventStream.encode (endpointEvent id) } where
  served := h.served
  relayed := by
    obtain ⟨received, houtputs, hsent⟩ := h.relayed
    rw [hstage] at hsent
    obtain ⟨rfl, hsent⟩ := hsent
    refine ⟨[], houtputs, ?_⟩
    change conn.sent ++ _ = _ ++ []
    rw [hsent, List.nil_append, List.append_nil]

theorem Relayed.read (h : Relayed sv c conn) {id : SessionId} {line : List Char}
    {rest : List (List Char)} (hstage : conn.stage = .streaming id)
    (hpending : conn.process.pending = line :: rest) :
    Relayed sv c { conn with
      process := { conn.process with pending := rest },
      sent := conn.sent ++ (messageEvent line).toList.flatMap EventStream.encode } where
  served := h.served
  relayed := by
    obtain ⟨received, houtputs, hsent⟩ := h.relayed
    rw [hstage] at hsent
    refine ⟨received ++ [line], ?_, ?_⟩
    · rw [List.append_assoc, List.singleton_append]
      rwa [hpending] at houtputs
    · dsimp only
      rw [hstage]
      dsimp only [Stage.begun] at hsent ⊢
      rw [hsent, List.filterMap_append, List.flatMap_append, List.append_assoc]
      cases hmessage : messageEvent line with
      | none => rw [List.filterMap_cons_none hmessage, List.filterMap_nil, Option.toList_none]
      | some event => rw [List.filterMap_cons_some hmessage, List.filterMap_nil, Option.toList_some]

theorem serve_append (f : Json.FloatText) (handler : Nat → Json → Outcome) (i : Nat)
    (lines more : List Line) : serve f handler i (lines ++ more) =
      serve f handler i lines ++ serve f handler (i + lines.length) more := by
  induction lines generalizing i with
  | nil => rfl
  | cons line rest ih =>
    rw [List.cons_append, serve, serve, ih, List.cons_append, List.length_cons, Nat.add_assoc,
      Nat.add_comm 1]

/-- The server answers its next line. -/
theorem Relayed.serve (h : Relayed sv c conn) {line : Line}
    (hline : (inputLines sv.loads conn.process.input)[conn.process.served]? = some line) :
    Relayed sv c { conn with process := { conn.process with
      served := conn.process.served + 1,
      pending := conn.process.pending ++ conn.process.answers sv c line } } where
  served := (List.getElem?_eq_some_iff.mp hline).1
  relayed := by
    obtain ⟨received, houtputs, hsent⟩ := h.relayed
    refine ⟨received, ?_, hsent⟩
    have hanswer : (runServer sv.floatText (sv.handler c)
        (inputLines sv.loads conn.process.input))[conn.process.served]? =
          some (handleLine sv.floatText (sv.handler c) conn.process.served line) := by
      rw [runServer, getElem?_serve, hline, Option.map_some, Nat.zero_add]
    rw [← List.append_assoc, houtputs, Connection.outputs, Connection.outputs]
    dsimp only
    rw [List.take_add_one, hanswer, List.flatten_append, List.map_append, Option.toList_some,
      List.flatten_singleton, Process.answers]

/-- A body is read after what was there before. -/
theorem Relayed.input (h : Relayed sv c conn) (text : List Char) :
    Relayed sv c { conn with process := { conn.process with
      input := conn.process.input ++ [text] } } := by
  have hlines : inputLines sv.loads (conn.process.input ++ [text]) =
      inputLines sv.loads conn.process.input ++ bodyLines sv.loads text := by
    rw [inputLines, List.flatMap_append, List.flatMap_singleton, inputLines]
  refine ⟨?_, ?_⟩
  · dsimp only
    rw [hlines, List.length_append]
    exact h.served.trans (Nat.le_add_right _ _)
  · obtain ⟨received, houtputs, hsent⟩ := h.relayed
    refine ⟨received, houtputs.trans ?_, hsent⟩
    rw [Connection.outputs, Connection.outputs]
    dsimp only
    rw [hlines, runServer, runServer, serve_append, List.take_append_of_le_length]
    rw [length_serve]
    exact h.served

/-! ### What the client reads -/

theorem answer_isObj {f : Json.FloatText} {id : Json} {response : List (String × Option Json)}
    {v : Json} (h : answer f id response = some v) : ∃ fields, v = .obj fields := by
  obtain ⟨fields, -, rfl⟩ := Option.map_eq_some_iff.mp h
  dsimp only
  split
  · exact ⟨_, rfl⟩
  · exact ⟨_, rfl⟩

/-- A server writes objects only. -/
theorem handleLine_isObj {f : Json.FloatText} {handler : Nat → Json → Outcome} {i : Nat}
    {line : Line} {v : Json} (h : v ∈ handleLine f handler i line) : ∃ fields, v = .obj fields := by
  have herror (h : v ∈ [parseError]) : ∃ fields, v = .obj fields :=
    ⟨_, List.mem_singleton.mp h⟩
  have hinternal (h : v ∈ [internalError]) : ∃ fields, v = .obj fields :=
    ⟨_, List.mem_singleton.mp h⟩
  unfold handleLine at h
  split at h
  · exact herror h
  · exact hinternal h
  · split at h
    · exact hinternal h
    · cases h
    · split at h
      · split at h
        · next written hanswer =>
          cases List.mem_singleton.mp h
          exact answer_isObj hanswer
        · exact hinternal h
      · exact hinternal h
      · exact hinternal h

theorem trimmed_dumps_obj (f : Json.FloatText) (fields : List (String × Json)) :
    Trimmed ((Json.obj fields).dumps f) ∧ (Json.obj fields).dumps f ≠ [] := by
  cases fields with
  | nil =>
    refine ⟨⟨?_, ?_⟩, List.cons_ne_nil _ _⟩
    · rintro c ⟨⟩
      rfl
    · rintro c ⟨⟩
      rfl
  | cons field rest =>
    obtain ⟨k, v⟩ := field
    rw [Json.dumps]
    refine ⟨⟨?_, ?_⟩, List.cons_ne_nil _ _⟩
    · rintro c ⟨⟩
      rfl
    · intro c hc
      rw [List.getLast?_concat] at hc
      cases hc
      rfl

/-- The line of a text without whitespace at its ends. -/
theorem strip_line {text : List Char} (h : Trimmed text) : strip (text ++ ['\n']) = text := by
  rw [strip_eq_dropWhile, List.rdropWhile_concat_pos _ _ _ (by decide), ← strip_eq_dropWhile,
    strip_of_trimmed h]

theorem messageEvent_answer {f : Json.FloatText} {handler : Nat → Json → Outcome} {i : Nat}
    {line : Line} {v : Json} (h : v ∈ handleLine f handler i line) :
    messageEvent (v.dumps f) = some (message (v.dumps f)) := by
  obtain ⟨fields, rfl⟩ := handleLine_isObj h
  obtain ⟨htrim, hne⟩ := trimmed_dumps_obj f fields
  unfold messageEvent
  dsimp only
  rw [strip_line htrim, if_neg hne]

theorem cr_notMem_dumps (f : Json.FloatText) (v : Json) : '\r' ∉ v.dumps f := by
  intro hmem
  exact absurd (Json.allPrintable_dumps f v _ hmem) (by decide)

theorem endpointEvent_oneLine (id : SessionId) : (endpointEvent id).OneLine := by
  have htype : "endpoint".toList ≠ [] ∧ '\n' ∉ "endpoint".toList ∧ '\r' ∉ "endpoint".toList := by
    decide
  have hpath : '\n' ∉ "/mcp/message?session_id=".toList ∧
      '\r' ∉ "/mcp/message?session_id=".toList := by
    decide
  have hdata : (endpointEvent id).data = "/mcp/message?session_id=".toList ++ id.text.toList :=
    String.toList_append
  refine ⟨htype.1, htype.2.1, htype.2.2, ?_, ?_⟩
  · rw [hdata, List.mem_append, not_or]
    exact ⟨hpath.1, id.newline⟩
  · rw [hdata, List.mem_append, not_or]
    exact ⟨hpath.2, id.carriageReturn⟩

theorem message_oneLine {data : List Char} (hnewline : '\n' ∉ data) (hcr : '\r' ∉ data) :
    (message data).OneLine := by
  have htype : "message".toList ≠ [] ∧ '\n' ∉ "message".toList ∧ '\r' ∉ "message".toList := by
    decide
  exact ⟨htype.1, htype.2.1, htype.2.2, hnewline, hcr⟩

/-- The client reads the endpoint, and each answer that was sent as one message. -/
theorem Relayed.parse (h : Relayed sv c conn) {id : SessionId}
    (hbegun : conn.stage.begun = some id) : ∃ received,
    EventStream.parse conn.sent = endpointEvent id :: received.map message ∧
      received ++ conn.process.pending = conn.outputs sv c := by
  obtain ⟨received, houtputs, hsent⟩ := h.relayed
  rw [hbegun] at hsent
  refine ⟨received, ?_, houtputs⟩
  have hanswer (text : List Char) (htext : text ∈ received) :
      ∃ i line v, v ∈ handleLine sv.floatText (sv.handler c) i line ∧
        text = v.dumps sv.floatText := by
    have hmem : text ∈ conn.outputs sv c := houtputs ▸ List.mem_append_left _ htext
    obtain ⟨v, hv, rfl⟩ := List.mem_map.mp hmem
    obtain ⟨written, hwritten, hv⟩ := List.mem_flatten.mp hv
    obtain ⟨i, hi⟩ := List.mem_iff_getElem?.mp (List.mem_of_mem_take hwritten)
    rw [runServer, getElem?_serve] at hi
    obtain ⟨line, -, rfl⟩ := Option.map_eq_some_iff.mp hi
    exact ⟨_, line, v, hv, rfl⟩
  have hmessages : received.filterMap messageEvent = received.map message := by
    rw [← List.filterMap_eq_map]
    refine List.filterMap_congr fun text htext ↦ ?_
    obtain ⟨i, line, v, hv, rfl⟩ := hanswer text htext
    exact messageEvent_answer hv
  have hsplit : conn.sent = (endpointEvent id :: received.map message).flatMap EventStream.encode := by
    rw [List.flatMap_cons, ← hmessages]
    exact hsent
  rw [hsplit, EventStream.parse_flatMap_encode]
  intro e he
  rcases List.mem_cons.mp he with rfl | he
  · exact endpointEvent_oneLine id
  · obtain ⟨text, htext, rfl⟩ := List.mem_map.mp he
    obtain ⟨i, line, v, hv, rfl⟩ := hanswer text htext
    exact message_oneLine (Json.newline_notMem_dumps _ _) (cr_notMem_dumps _ _)

end Connection

/-! ### The runs -/

section Run

variable {C Q : Type} {sv : Service C} {s s' : State C Q}

/-- The stages tell the same about the session. -/
structure Stage.Alike (a b : Stage) : Prop where
  id : a.id? = b.id?
  running : a.running = b.running
  active : a.active = b.active

theorem Stage.id?_of_running {stage : Stage} {id : SessionId} (h : stage.running = some id) :
    stage.id? = some id := by
  cases stage with
  | opened | streaming | closing | closed | dropped => exact h
  | idle | refused | starting => cases h

theorem Stage.running_of_active {stage : Stage} {id : SessionId} (h : stage.active = some id) :
    stage.running = some id := by
  cases stage with
  | opened | streaming | closing | dropped => exact h
  | idle | refused | starting | closed => cases h

/-- What every step keeps. -/
structure Kept (sv : Service C) (s : State C Q) : Prop where
  capacity : s.sessions.length + s.starting.length < maxMcpSessions + s.peak
  starting : ∀ c, (s.conns c).stage.id? ≠ none → (s.conns c).stage.running = none →
    c ∈ s.starting
  known : ∀ c id, (s.conns c).stage.id? = some id → id ∈ s.used
  distinct : ∀ c c' id, (s.conns c).stage.id? = some id → (s.conns c').stage.id? = some id → c = c'
  owned : ∀ id c, (id, c) ∈ s.sessions → (s.conns c).stage.active = some id
  registered : ∀ c id, (s.conns c).stage.active = some id →
    (id, c) ∈ s.sessions ∨ (s.conns c).process.returncode ≠ none
  reading : ∀ q id c, s.posts q = .reading id c → (s.conns c).stage.running = some id
  unborn : ∀ c, (s.conns c).stage.running = none → (s.conns c).process.input = []
  routed : ∀ c id, (s.conns c).stage.id? = some id →
    (s.conns c).process.input = (s.written.filter (·.1 = id)).map Prod.snd
  writtenKnown : ∀ entry ∈ s.written, entry.1 ∈ s.used
  relayed : ∀ c, Relayed sv c (s.conns c)

variable [DecidableEq C] {c : C} {conn : Connection}

theorem State.conns_setConn_self : (s.setConn c conn).conns c = conn := Function.update_self ..

theorem State.conns_setConn_of_ne {x : C} (h : x ≠ c) : (s.setConn c conn).conns x = s.conns x :=
  Function.update_of_ne h ..

/-- What holds of the connection that changes and of the others. -/
theorem State.forall_setConn {P : C → Connection → Prop} (hc : P c conn)
    (hother : ∀ x, x ≠ c → P x (s.conns x)) (x : C) : P x ((s.setConn c conn).conns x) := by
  by_cases hx : x = c
  · subst hx
    rwa [State.conns_setConn_self]
  · rw [State.conns_setConn_of_ne hx]
    exact hother x hx

/-- A connection changes in what nobody else sees. -/
theorem Kept.quiet (h : Kept sv s) (halike : conn.stage.Alike (s.conns c).stage)
    (hinput : conn.process.input = (s.conns c).process.input)
    (hcode : conn.process.returncode = none → (s.conns c).process.returncode = none)
    (hrelayed : Relayed sv c conn) : Kept sv (s.setConn c conn) := by
  have hstage (x : C) : ((s.setConn c conn).conns x).stage.Alike (s.conns x).stage :=
    State.forall_setConn (P := fun x conn ↦ conn.stage.Alike (s.conns x).stage) halike
      (fun x _ ↦ ⟨rfl, rfl, rfl⟩) x
  have hsame (x : C) : ((s.setConn c conn).conns x).process.input = (s.conns x).process.input :=
    State.forall_setConn (P := fun x conn ↦ conn.process.input = (s.conns x).process.input) hinput
      (fun x _ ↦ rfl) x
  have hcodes (x : C) : ((s.setConn c conn).conns x).process.returncode = none →
      (s.conns x).process.returncode = none :=
    State.forall_setConn (P := fun x conn ↦ conn.process.returncode = none →
      (s.conns x).process.returncode = none) hcode (fun x _ h ↦ h) x
  exact {
    capacity := h.capacity
    starting := fun x hid hrunning ↦ h.starting x ((hstage x).id ▸ hid)
      ((hstage x).running ▸ hrunning)
    known := fun x id hid ↦ h.known x id ((hstage x).id ▸ hid)
    distinct := fun x y id hx hy ↦ h.distinct x y id ((hstage x).id ▸ hx) ((hstage y).id ▸ hy)
    owned := fun id x hx ↦ (hstage x).active.trans (h.owned id x hx)
    registered := fun x id hx ↦
      (h.registered x id ((hstage x).active ▸ hx)).imp_right fun hne hnone ↦ hne (hcodes x hnone)
    reading := fun q id x hx ↦ (hstage x).running.trans (h.reading q id x hx)
    unborn := fun x hx ↦ (hsame x).trans (h.unborn x ((hstage x).running ▸ hx))
    routed := fun x id hx ↦ (hsame x).trans (h.routed x id ((hstage x).id ▸ hx))
    writtenKnown := h.writtenKnown
    relayed := State.forall_setConn hrelayed fun x _ ↦ h.relayed x }

/-- A request is let in. -/
theorem Kept.admitted (h : Kept sv s) (hidle : (s.conns c).stage = .idle) {id : SessionId}
    (hfresh : id ∉ s.used) (hroom : s.sessions.length < maxMcpSessions) (launch : Launch) :
    Kept sv { s.setConn c { s.conns c with stage := .starting launch id } with
      starting := c :: s.starting,
      peak := max s.peak (s.starting.length + 1),
      used := id :: s.used } := by
  have hinput : (s.conns c).process.input = [] := h.unborn c (by rw [hidle]; rfl)
  have hnone : (s.written.filter (·.1 = id)).map Prod.snd = [] := by
    rw [List.map_eq_nil_iff, List.filter_eq_nil_iff]
    intro entry hentry heq
    exact hfresh (of_decide_eq_true heq ▸ h.writtenKnown entry hentry)
  have hother {x : C} (hx : (s.conns x).stage.id? = some id) : False :=
    hfresh (h.known x id hx)
  refine ⟨?_, ?_, ?_, ?_, ?_, ?_, ?_, ?_, ?_, ?_, ?_⟩
  · have hpeak := Nat.le_max_right s.peak (s.starting.length + 1)
    simp only [State.setConn, List.length_cons]
    omega
  · exact State.forall_setConn (P := fun x conn ↦ conn.stage.id? ≠ none →
      conn.stage.running = none → x ∈ c :: s.starting) (fun _ _ ↦ List.mem_cons_self)
      fun x _ hid hrunning ↦ List.mem_cons_of_mem _ (h.starting x hid hrunning)
  · exact State.forall_setConn (P := fun x conn ↦ ∀ id', conn.stage.id? = some id' →
      id' ∈ id :: s.used) (fun id' hid ↦ Option.some.inj hid ▸ List.mem_cons_self)
      fun x _ id' hid ↦ List.mem_cons_of_mem _ (h.known x id' hid)
  · intro x y id' hx hy
    dsimp only at hx hy
    by_cases hxc : x = c
    · by_cases hyc : y = c
      · rw [hxc, hyc]
      · subst hxc
        rw [State.conns_setConn_self] at hx
        rw [State.conns_setConn_of_ne hyc] at hy
        exact (hother (Option.some.inj hx ▸ hy)).elim
    · by_cases hyc : y = c
      · subst hyc
        rw [State.conns_setConn_self] at hy
        rw [State.conns_setConn_of_ne hxc] at hx
        exact (hother (Option.some.inj hy ▸ hx)).elim
      · rw [State.conns_setConn_of_ne hxc] at hx
        rw [State.conns_setConn_of_ne hyc] at hy
        exact h.distinct x y id' hx hy
  · intro id' x hx
    have hactive := h.owned id' x hx
    have hxc : x ≠ c := by
      rintro rfl
      rw [hidle] at hactive
      cases hactive
    dsimp only
    rwa [State.conns_setConn_of_ne hxc]
  · exact State.forall_setConn (P := fun x conn ↦ ∀ id', conn.stage.active = some id' →
      (id', x) ∈ s.sessions ∨ conn.process.returncode ≠ none) (fun _ hactive ↦ nomatch hactive)
      fun x _ ↦ h.registered x
  · intro q id' x hx
    have hrunning := h.reading q id' x hx
    have hxc : x ≠ c := by
      rintro rfl
      rw [hidle] at hrunning
      cases hrunning
    dsimp only
    rwa [State.conns_setConn_of_ne hxc]
  · exact State.forall_setConn (P := fun x conn ↦ conn.stage.running = none →
      conn.process.input = []) (fun _ ↦ hinput) fun x _ ↦ h.unborn x
  · refine State.forall_setConn (P := fun x conn ↦ ∀ id', conn.stage.id? = some id' →
      conn.process.input = (s.written.filter (·.1 = id')).map Prod.snd) ?_ fun x _ ↦ h.routed x
    rintro _ ⟨⟩
    exact hinput.trans hnone.symm
  · exact fun entry hentry ↦ List.mem_cons_of_mem _ (h.writtenKnown entry hentry)
  · exact State.forall_setConn ((h.relayed c).setStage (by rw [hidle]; rfl))
      fun x _ ↦ h.relayed x

/-- A process is started, and its session opened. -/
theorem Kept.opened (h : Kept sv s) {launch : Launch} {id : SessionId}
    (hstarting : (s.conns c).stage = .starting launch id) :
    Kept sv { s.setConn c { s.conns c with stage := .opened id } with
      starting := s.starting.erase c,
      sessions := s.sessions ++ [(id, c)] } := by
  have hmem : c ∈ s.starting := h.starting c (by rw [hstarting]; nofun) (by rw [hstarting]; rfl)
  have hid : (s.conns c).stage.id? = some id := by rw [hstarting]; rfl
  have hids (x : C) : ((s.setConn c { s.conns c with stage := .opened id }).conns x).stage.id? =
      (s.conns x).stage.id? :=
    State.forall_setConn (P := fun x conn ↦ conn.stage.id? = (s.conns x).stage.id?)
      (by exact hid.symm) (fun x _ ↦ rfl) x
  refine ⟨?_, ?_, ?_, ?_, ?_, ?_, ?_, ?_, ?_, h.writtenKnown, ?_⟩
  · have hcapacity := h.capacity
    have hlength := List.length_erase_of_mem hmem
    have hpos := List.length_pos_of_mem hmem
    simp only [State.setConn, List.length_append, List.length_singleton]
    omega
  · refine State.forall_setConn (P := fun x conn ↦ conn.stage.id? ≠ none →
      conn.stage.running = none → x ∈ s.starting.erase c) (fun _ hrunning ↦ nomatch hrunning) ?_
    exact fun x hx hid hrunning ↦ (List.mem_erase_of_ne hx).mpr (h.starting x hid hrunning)
  · exact fun x id' hx ↦ h.known x id' ((hids x).symm.trans hx)
  · exact fun x y id' hx hy ↦
      h.distinct x y id' ((hids x).symm.trans hx) ((hids y).symm.trans hy)
  · intro id' x hx
    dsimp only at hx ⊢
    rcases List.mem_append.mp hx with hx | hx
    · have hactive := h.owned id' x hx
      have hxc : x ≠ c := by
        rintro rfl
        rw [hstarting] at hactive
        cases hactive
      rwa [State.conns_setConn_of_ne hxc]
    · obtain ⟨rfl, rfl⟩ := Prod.mk.inj (List.mem_singleton.mp hx)
      rw [State.conns_setConn_self]
      rfl
  · refine State.forall_setConn (P := fun x conn ↦ ∀ id', conn.stage.active = some id' →
      (id', x) ∈ s.sessions ++ [(id, c)] ∨ conn.process.returncode ≠ none) ?_ ?_
    · rintro _ ⟨⟩
      exact .inl (List.mem_append_right _ (List.mem_singleton.mpr rfl))
    · exact fun x _ id' hx ↦ (h.registered x id' hx).imp_left (List.mem_append_left _)
  · intro q id' x hx
    have hrunning := h.reading q id' x hx
    have hxc : x ≠ c := by
      rintro rfl
      rw [hstarting] at hrunning
      cases hrunning
    dsimp only
    rwa [State.conns_setConn_of_ne hxc]
  · exact State.forall_setConn (P := fun x conn ↦ conn.stage.running = none →
      conn.process.input = []) (fun hrunning ↦ nomatch hrunning) fun x _ ↦ h.unborn x
  · refine State.forall_setConn (P := fun x conn ↦ ∀ id', conn.stage.id? = some id' →
      conn.process.input = (s.written.filter (·.1 = id')).map Prod.snd) ?_ fun x _ ↦ h.routed x
    exact fun id' hid' ↦ h.routed c id' (hid.trans hid')
  · exact State.forall_setConn ((h.relayed c).setStage (by rw [hstarting]; rfl))
      fun x _ ↦ h.relayed x

/-- A process is not started. -/
theorem Kept.failed (h : Kept sv s) {launch : Launch} {id : SessionId}
    (hstarting : (s.conns c).stage = .starting launch id) (e : HttpException) :
    Kept sv { s.setConn c { s.conns c with stage := .refused e } with
      starting := s.starting.erase c } := by
  have hrunning : (s.conns c).stage.running = none := by rw [hstarting]; rfl
  have hids (x : C) (id' : SessionId)
      (hx : ((s.setConn c { s.conns c with stage := .refused e }).conns x).stage.id? = some id') :
      (s.conns x).stage.id? = some id' := by
    revert hx
    exact State.forall_setConn (P := fun x conn ↦ conn.stage.id? = some id' →
      (s.conns x).stage.id? = some id') (by exact nofun) (fun x _ hid ↦ hid) x
  refine ⟨?_, ?_, fun x id' hx ↦ h.known x id' (hids x id' hx),
    fun x y id' hx hy ↦ h.distinct x y id' (hids x id' hx) (hids y id' hy), ?_, ?_, ?_, ?_, ?_,
    h.writtenKnown, ?_⟩
  · have hcapacity := h.capacity
    have hlength := List.length_erase_le (a := c) (l := s.starting)
    simp only [State.setConn]
    omega
  · refine State.forall_setConn (P := fun x conn ↦ conn.stage.id? ≠ none →
      conn.stage.running = none → x ∈ s.starting.erase c) (fun hid _ ↦ absurd rfl hid) ?_
    exact fun x hx hid hrunning ↦ (List.mem_erase_of_ne hx).mpr (h.starting x hid hrunning)
  · intro id' x hx
    have hactive := h.owned id' x hx
    have hxc : x ≠ c := by
      rintro rfl
      rw [hstarting] at hactive
      cases hactive
    dsimp only
    rwa [State.conns_setConn_of_ne hxc]
  · exact State.forall_setConn (P := fun x conn ↦ ∀ id', conn.stage.active = some id' →
      (id', x) ∈ s.sessions ∨ conn.process.returncode ≠ none) (fun _ hactive ↦ nomatch hactive)
      fun x _ ↦ h.registered x
  · intro q id' x hx
    have hrunning' := h.reading q id' x hx
    have hxc : x ≠ c := by
      rintro rfl
      rw [hrunning] at hrunning'
      cases hrunning'
    dsimp only
    rwa [State.conns_setConn_of_ne hxc]
  · exact State.forall_setConn (P := fun x conn ↦ conn.stage.running = none →
      conn.process.input = []) (fun _ ↦ h.unborn c hrunning) fun x _ ↦ h.unborn x
  · exact State.forall_setConn (P := fun x conn ↦ ∀ id', conn.stage.id? = some id' →
      conn.process.input = (s.written.filter (·.1 = id')).map Prod.snd)
      (fun _ hid ↦ nomatch hid) fun x _ ↦ h.routed x
  · exact State.forall_setConn ((h.relayed c).setStage (by rw [hstarting]; rfl))
      fun x _ ↦ h.relayed x

omit [DecidableEq C] in
/-- The session of a process that has exited is taken out. -/
theorem Kept.pop (h : Kept sv s) {id : SessionId}
    (hdead : ∀ x, (s.conns x).stage.active = some id → (s.conns x).process.returncode ≠ none) :
    Kept sv (s.pop id) where
  capacity := by
    have hcapacity := h.capacity
    have hlength := List.length_filter_le (fun entry : SessionId × C ↦ decide (entry.1 ≠ id))
      s.sessions
    dsimp only [State.pop]
    omega
  starting := h.starting
  known := h.known
  distinct := h.distinct
  owned := fun id' x hx ↦ h.owned id' x (List.mem_of_mem_filter hx)
  registered := by
    intro x id' hx
    by_cases hid : id' = id
    · exact .inr (hdead x (hid ▸ hx))
    · exact (h.registered x id' hx).imp_left fun hmem ↦
        List.mem_filter.mpr ⟨hmem, decide_eq_true hid⟩
  reading := h.reading
  unborn := h.unborn
  routed := h.routed
  writtenKnown := h.writtenKnown
  relayed := h.relayed

/-- The generator is over. -/
theorem Kept.closed (h : Kept sv s) {id : SessionId} (hactive : (s.conns c).stage.active = some id)
    (hbegun : (s.conns c).stage.begun = some id) (code : Int) :
    Kept sv ((s.setConn c { s.conns c with
      stage := .closed id,
      process := { (s.conns c).process with returncode := some code } }).pop id) := by
  have hrunning : (s.conns c).stage.running = some id := Stage.running_of_active hactive
  have hid : (s.conns c).stage.id? = some id := Stage.id?_of_running hrunning
  have hids (x : C) : ((s.setConn c { s.conns c with
      stage := .closed id,
      process := { (s.conns c).process with returncode := some code } }).conns x).stage.id? =
        (s.conns x).stage.id? :=
    State.forall_setConn (P := fun x conn ↦ conn.stage.id? = (s.conns x).stage.id?)
      (by exact hid.symm) (fun x _ ↦ rfl) x
  refine ⟨?_, ?_, fun x id' hx ↦ h.known x id' ((hids x).symm.trans hx),
    fun x y id' hx hy ↦ h.distinct x y id' ((hids x).symm.trans hx) ((hids y).symm.trans hy),
    ?_, ?_, ?_, ?_, ?_, h.writtenKnown, ?_⟩
  · have hcapacity := h.capacity
    have hlength := List.length_filter_le (fun entry : SessionId × C ↦ decide (entry.1 ≠ id))
      s.sessions
    simp only [State.pop, State.setConn]
    omega
  · exact State.forall_setConn (P := fun x conn ↦ conn.stage.id? ≠ none →
      conn.stage.running = none → x ∈ s.starting) (fun _ hrunning ↦ nomatch hrunning)
      fun x _ ↦ h.starting x
  · intro id' x hx
    obtain ⟨hmem, hne⟩ := List.mem_filter.mp hx
    have hactive' := h.owned id' x hmem
    have hxc : x ≠ c := by
      rintro rfl
      exact of_decide_eq_true hne (Option.some.inj (hactive'.symm.trans hactive))
    dsimp only [State.pop]
    rwa [State.conns_setConn_of_ne hxc]
  · refine State.forall_setConn (P := fun x conn ↦ ∀ id', conn.stage.active = some id' →
      (id', x) ∈ s.sessions.filter (fun entry ↦ decide (entry.1 ≠ id)) ∨
        conn.process.returncode ≠ none) ?_ fun x hx id' hx' ↦ ?_
    · exact fun _ hactive ↦ nomatch hactive
    · refine (h.registered x id' hx').imp_left fun hmem ↦
        List.mem_filter.mpr ⟨hmem, decide_eq_true ?_⟩
      rintro rfl
      exact hx (h.distinct x c id' (Stage.id?_of_running (Stage.running_of_active hx')) hid)
  · intro q id' x hx
    refine State.forall_setConn (P := fun x conn ↦ (s.conns x).stage.running = some id' →
      conn.stage.running = some id') ?_ (fun x _ h ↦ h) x (h.reading q id' x hx)
    exact fun hx ↦ hrunning.symm.trans hx
  · exact State.forall_setConn (P := fun x conn ↦ conn.stage.running = none →
      conn.process.input = []) (fun hrunning ↦ nomatch hrunning) fun x _ ↦ h.unborn x
  · refine State.forall_setConn (P := fun x conn ↦ ∀ id', conn.stage.id? = some id' →
      conn.process.input = (s.written.filter (·.1 = id')).map Prod.snd) ?_ fun x _ ↦ h.routed x
    exact fun id' hid' ↦ h.routed c id' (hid.trans hid')
  · refine State.forall_setConn ?_ fun x _ ↦ h.relayed x
    exact ((h.relayed c).setReturncode (some code)).setStage hbegun.symm

omit [DecidableEq C] in
/-- A POST moves on. -/
theorem Kept.posted [DecidableEq Q] (h : Kept sv s) (q : Q) {post : Post C}
    (hreading : ∀ id c, post = .reading id c → (s.conns c).stage.running = some id) :
    Kept sv (s.setPost q post) := by
  refine { h with reading := fun q' id c hpost ↦ ?_ }
  by_cases hq : q' = q
  · subst hq
    refine hreading id c ?_
    simpa only [State.setPost, Function.update_self] using hpost
  · exact h.reading q' id c (by simpa only [State.setPost, Function.update_of_ne hq] using hpost)

/-- A body is written to the server of its session. -/
theorem Kept.wrote (h : Kept sv s) {id : SessionId} (hrunning : (s.conns c).stage.running = some id)
    (text : List Char) :
    Kept sv { s.setConn c { s.conns c with process := { (s.conns c).process with
      input := (s.conns c).process.input ++ [text] } } with
        written := s.written ++ [(id, text)] } := by
  have hid : (s.conns c).stage.id? = some id := Stage.id?_of_running hrunning
  have hstage (x : C) : ((s.setConn c { s.conns c with process := { (s.conns c).process with
      input := (s.conns c).process.input ++ [text] } }).conns x).stage = (s.conns x).stage :=
    State.forall_setConn (P := fun x conn ↦ conn.stage = (s.conns x).stage) (by rfl)
      (fun x _ ↦ rfl) x
  refine ⟨h.capacity, ?_, ?_, ?_, ?_, ?_, ?_, ?_, ?_, ?_, ?_⟩
  · intro x
    dsimp only
    rw [hstage x]
    exact h.starting x
  · intro x
    dsimp only
    rw [hstage x]
    exact h.known x
  · intro x y id' hx hy
    dsimp only at hx hy
    rw [hstage] at hx hy
    exact h.distinct x y id' hx hy
  · intro id' x hx
    dsimp only
    rw [hstage x]
    exact h.owned id' x hx
  · exact State.forall_setConn (P := fun x conn ↦ ∀ id', conn.stage.active = some id' →
      (id', x) ∈ s.sessions ∨ conn.process.returncode ≠ none) (by exact h.registered c)
      fun x _ ↦ h.registered x
  · intro q id' x hx
    dsimp only
    rw [hstage x]
    exact h.reading q id' x hx
  · refine State.forall_setConn (P := fun x conn ↦ conn.stage.running = none →
      conn.process.input = []) (fun hnone ↦ ?_) fun x _ ↦ h.unborn x
    cases hrunning.symm.trans hnone
  · refine State.forall_setConn (P := fun x conn ↦ ∀ id', conn.stage.id? = some id' →
      conn.process.input = ((s.written ++ [(id, text)]).filter (·.1 = id')).map Prod.snd)
      (fun id' hid' ↦ ?_) fun x hx id' hid' ↦ ?_
    · obtain rfl : id = id' := Option.some.inj (hid.symm.trans hid')
      have hself : [(id, text)].filter (·.1 = id) = [(id, text)] := by simp
      rw [List.filter_append, List.map_append, ← h.routed c id hid, hself]
      rfl
    · have hne : id ≠ id' := by
        rintro rfl
        exact hx (h.distinct x c id hid' hid)
      rw [List.filter_append, List.filter_cons_of_neg (by simpa using hne), List.filter_nil,
        List.append_nil]
      exact h.routed x id' hid'
  · intro entry hentry
    rcases List.mem_append.mp hentry with hentry | hentry
    · exact h.writtenKnown entry hentry
    · cases List.mem_singleton.mp hentry
      exact h.known c id hid
  · exact State.forall_setConn ((h.relayed c).input text) fun x _ ↦ h.relayed x

omit [DecidableEq C] in
theorem kept_initial : Kept sv (.initial : State C Q) where
  capacity := (by decide : 0 + 0 < maxMcpSessions + 0)
  starting := fun _ hid ↦ absurd rfl hid
  known := nofun
  distinct := nofun
  owned := nofun
  registered := nofun
  reading := nofun
  unborn := fun _ _ ↦ rfl
  routed := nofun
  writtenKnown := nofun
  relayed := fun _ ↦ relayed_new rfl

variable [DecidableEq Q]

theorem Kept.step (h : Kept sv s) {e : Event C Q} (hs : s.step sv e = some s') : Kept sv s' := by
  cases e with
  | connect c serverName query id =>
    simp only [State.step] at hs
    split at hs
    · next hidle =>
      split at hs
      · cases hs
      · next hfresh =>
        have hguarded := guarded_admission sv.machine s.sessions.length serverName query
        split at hs
        · cases hs
          refine h.quiet ?_ rfl (fun hcode ↦ hcode) ((h.relayed c).setStage (by rw [hidle]; rfl))
          rw [hidle]
          exact ⟨rfl, rfl, rfl⟩
        · next launch hlaunch =>
          cases hs
          rw [hlaunch] at hguarded
          exact h.admitted hidle hfresh hguarded.room launch
    · cases hs
  | started c ok =>
    simp only [State.step] at hs
    split at hs
    · next launch id hstarting =>
      split at hs
      · cases hs
        exact h.opened hstarting
      · cases hs
        exact h.failed hstarting _
    · cases hs
  | begin c =>
    simp only [State.step] at hs
    split at hs
    · next id hopened =>
      cases hs
      refine h.quiet ?_ rfl (fun hcode ↦ hcode) ((h.relayed c).begin hopened)
      rw [hopened]
      exact ⟨rfl, rfl, rfl⟩
    · cases hs
  | read c =>
    simp only [State.step] at hs
    split at hs
    · next id line rest hstage hpending =>
      cases hs
      exact h.quiet ⟨rfl, rfl, rfl⟩ rfl (fun hcode ↦ hcode) ((h.relayed c).read hstage hpending)
    · cases hs
  | drop c =>
    simp only [State.step] at hs
    split at hs
    · next id hopened =>
      cases hs
      refine h.quiet ?_ rfl (fun hcode ↦ hcode) ((h.relayed c).setStage (by rw [hopened]; rfl))
      rw [hopened]
      exact ⟨rfl, rfl, rfl⟩
    · cases hs
  | finish c =>
    simp only [State.step] at hs
    split at hs
    · next id hstage =>
      split at hs
      · cases hs
        refine h.quiet ?_ rfl (fun hcode ↦ hcode) ((h.relayed c).setStage (by rw [hstage]; rfl))
        rw [hstage]
        exact ⟨rfl, rfl, rfl⟩
      · next hcode =>
        cases hs
        obtain ⟨code, hcode⟩ := Option.ne_none_iff_exists'.mp hcode
        have hclosed := h.closed (c := c) (by rw [hstage]; rfl) (by rw [hstage]; rfl) code
        rw [← hcode] at hclosed
        exact hclosed
    · cases hs
  | reap c =>
    simp only [State.step] at hs
    split at hs
    · next id hstage =>
      cases hs
      exact h.closed (by rw [hstage]; rfl) (by rw [hstage]; rfl) _
    · cases hs
  | serve c =>
    simp only [State.step] at hs
    split at hs
    · obtain ⟨line, hline, rfl⟩ := Option.map_eq_some_iff.mp hs
      exact h.quiet ⟨rfl, rfl, rfl⟩ rfl (fun hcode ↦ hcode) ((h.relayed c).serve hline)
    · cases hs
  | exit c code =>
    simp only [State.step] at hs
    split at hs
    · cases hs
      exact h.quiet ⟨rfl, rfl, rfl⟩ rfl nofun ((h.relayed c).setReturncode (some code))
    · cases hs
  | post q id =>
    simp only [State.step] at hs
    split at hs
    · split at hs
      · cases hs
        exact h.posted q nofun
      · next c hlookup =>
        have howned := h.owned id c (mem_of_lookup hlookup)
        split at hs
        · cases hs
          refine h.posted q ?_
          rintro id c ⟨⟩
          exact Stage.running_of_active howned
        · next hdead =>
          cases hs
          have hposted : Kept sv (s.setPost q (.answered 400)) := h.posted q nofun
          refine hposted.pop fun x hx ↦ ?_
          have hxc : x = c := h.distinct x c id
            (Stage.id?_of_running (Stage.running_of_active hx))
            (Stage.id?_of_running (Stage.running_of_active howned))
          rw [hxc]
          exact hdead
    · cases hs
  | body q text ok =>
    simp only [State.step] at hs
    split at hs
    · next id c hreading =>
      split at hs
      · cases hs
        exact (h.wrote (h.reading q id c hreading) text).posted q nofun
      · cases hs
        exact h.posted q nofun
    · cases hs

/-- In every run a session relays between its client and its server. -/
theorem relays_of_reach (h : (proxy C Q sv).Reach s) : Relays sv s := by
  have hkept : Kept sv s := by
    refine h.invariant ?_ fun t e t' ht _ hs ↦ ht.step hs
    rintro _ rfl
    exact kept_initial
  exact {
    capacity := (Nat.le_add_right _ _).trans_lt hkept.capacity
    owned := hkept.owned
    registered := hkept.registered
    routed := fun c id hid ↦ hkept.routed c id (Stage.id?_of_running hid)
    relayed := fun c id hid ↦ (hkept.relayed c).parse hid }

/-- One machine with servers that answer every request alike. -/
def echoService : Service (Fin 2) where
  machine := ⟨[], "/app", id, fun _ ↦ true, asciiUpper⟩
  floatText := ⟨fun _ ↦ [], nofun⟩
  loads := fun _ ↦ .value (.obj [("id", .int 1)])
  handler := fun _ _ _ ↦ .returned [("ok", some (.bool true))]

/-- Two clients with their servers; one of them gets an answer, and one leaves. -/
theorem relays_of_reach_two : ∃ s : State (Fin 2) (Fin 1),
    (s.sessions.map Prod.snd = [0] ∧ (EventStream.parse (s.conns 0).sent).length = 2) ∧
      Relays echoService s := by
  obtain ⟨s, hs, hend⟩ := System.exists_reachWhen (proxy (Fin 2) (Fin 1) echoService) System.always
    (fun s ↦ s.sessions.map Prod.snd = [0] ∧ (EventStream.parse (s.conns 0).sent).length = 2)
    [.connect 0 "memory" [] ⟨"a", by decide, by decide⟩,
      .connect 1 "memory" [] ⟨"b", by decide, by decide⟩, .started 1 true, .started 0 true,
      .begin 1, .begin 0, .post 0 ⟨"a", by decide, by decide⟩, .body 0 ['x'] true, .finish 1,
      .serve 0, .reap 1, .read 0]
    rfl (by decide +kernel)
  exact ⟨s, hend, relays_of_reach hs⟩

end Run

end GithubAgent.Mcp.Proxy
