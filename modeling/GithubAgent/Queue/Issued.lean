import GithubAgent.Queue.JobQueue

/-!
# What a step does, and where job ids come from

`Stepped` lists what a step can do, once for all invariants. `Sound` is the bookkeeping they
share: a job id occurs in Redis or in a client's locals only after `create_job` made it, and
an id that is still being created belongs to one client.
-/

namespace GithubAgent.Queue

open GithubAgent.Base

section Locals

variable {J : Type}

/-! ### The jobs a client's locals mention -/

/-- The job popped by a `get_next_job` that has not returned. -/
def NextPc.hand : NextPc J → Option J
  | .pop => none
  | .data j => some j
  | .expired j => some j
  | .corrupt j => some j
  | .add j _ => some j
  | .status j _ => some j
  | .backup j _ => some j
  | .started j _ => some j

/-- The job a client holds inside `get_next_job`. -/
def Pc.hand : Pc J → Option J
  | .next p => p.hand
  | _ => none

/-- The job a client is creating, which no other client can know yet. -/
def Pc.creating : Pc J → Option J
  | .create j _ => some j
  | _ => none

/-- The job ids in the locals of a client, apart from one it is creating. -/
def Pc.mentions : Pc J → List J
  | .next p => p.hand.toList
  | .complete j _ _ => [j]
  | .reclaim f j _ => j :: (f.jobIds ++ f.rest)
  | _ => []

/-- The job ids a client knows from Redis. -/
def Client.mentions (cl : Client J) : List J := cl.pc.mentions ++ cl.jobs.map Prod.fst

theorem mem_nextTurn_mentions {f : Frame J} {j : J} (h : j ∈ (nextTurn f).mentions) :
    j ∈ f.jobIds ++ f.rest := by
  unfold nextTurn at h
  split at h
  · cases h
  · next i rest hr =>
    simp only [Pc.mentions, List.mem_cons, List.mem_append] at h ⊢
    rw [hr, List.mem_cons]
    tauto

theorem nextTurn_creating (f : Frame J) : (nextTurn f).creating = none := by
  unfold nextTurn
  split <;> rfl

theorem nextTurn_hand (f : Frame J) : (nextTurn f).hand = none := by
  unfold nextTurn
  split <;> rfl

theorem afterError_cases {pc pc' : Pc J} (h : afterError pc = some pc') :
    pc' = .idle ∨ ∃ f j p, pc = .reclaim f j p ∧ pc' = nextTurn f := by
  cases pc with
  | idle => cases h
  | reclaim f j p =>
    cases h
    exact .inr ⟨f, j, p, rfl, rfl⟩
  | create | next | complete | members =>
    cases h
    exact .inl rfl

/-- The job a `get_next_job` returns is the one in its locals. -/
theorem pulledJob_mentions {pc : Pc J} {job : J × JsonText} (h : job ∈ pulledJob pc) : job.1 ∈ pc.mentions := by
  cases pc with
  | next p =>
    cases p with
    | started i t =>
      simp only [pulledJob, List.mem_singleton] at h
      simp [h, Pc.mentions, NextPc.hand]
    | pop | data | expired | corrupt | add | status | backup => cases h
  | idle | create | complete | members | reclaim => cases h

end Locals

section Steps

variable {C J : Type} [DecidableEq C] [DecidableEq J] {cfg : Config C J} {s s' : State C J}

/-! ### Inversion of a step -/

/-- What a step can do, with the conditions under which it does it. -/
inductive Stepped (cfg : Config C J) (s : State C J) : Action C J → State C J → Prop where
  | create {c : C} {j : J} {jobData : Json} (alive : (s.clients c).alive = true)
      (idle : (s.clients c).pc = .idle) (fresh : .issued j ∉ s.log)
      (valid : cfg.validateJobId j = true) :
      Stepped cfg s (.call c (.create j jobData))
        { s.setClient c { s.clients c with pc := .create j (.data jobData) } with
          log := .issued j :: s.log }
  | next {c : C} (alive : (s.clients c).alive = true) (idle : (s.clients c).pc = .idle) :
      Stepped cfg s (.call c .next) (s.setClient c { s.clients c with pc := .next .pop })
  | complete {c : C} {j : J} {result : Json} {label : String}
      (alive : (s.clients c).alive = true) (idle : (s.clients c).pc = .idle)
      (created : .created j ∈ s.log) :
      Stepped cfg s (.call c (.complete j result label))
        (s.setClient c
          { s.clients c with
            pc := .complete j label (.result result)
            jobs := (s.clients c).jobs.filter fun job ↦ job.1 ≠ j })
  | reclaim {c : C} (alive : (s.clients c).alive = true) (idle : (s.clients c).pc = .idle) :
      Stepped cfg s (.call c .reclaim) (s.setClient c { s.clients c with pc := .members })
  | command {c : C} {o : Outcome J} (alive : (s.clients c).alive = true)
      (runs : command cfg.validateJobId (cfg.jobTtl c) s.now s.redis (s.clients c).pc = some o) :
      Stepped cfg s (.command c) (s.after c o)
  | scan {c : C} {jobIds : List J} (alive : (s.clients c).alive = true)
      (atScan : (s.clients c).pc = .members) (nodup : jobIds.Nodup)
      (members : jobIds.toFinset = s.redis.processing) :
      Stepped cfg s (.scan c jobIds)
        (s.setClient c { s.clients c with pc := nextTurn ⟨jobIds, jobIds, 0⟩ })
  | error {c : C} {pc : Pc J} (alive : (s.clients c).alive = true)
      (raises : afterError (s.clients c).pc = some pc) :
      Stepped cfg s (.error c) (s.setClient c { s.clients c with pc := pc })
  | crash {c : C} (alive : (s.clients c).alive = true) :
      Stepped cfg s (.crash c) (s.setClient c { s.clients c with alive := false })
  | tick {ms : Nat} : Stepped cfg s (.tick ms) { s with now := s.now + ms }

/-- Every step of the system is one of those listed. -/
theorem step_cases {a : Action C J} (h : step cfg s a = some s') : Stepped cfg s a s' := by
  cases a with
  | call c op =>
    simp only [step] at h
    split at h
    · next halive hidle =>
      cases op with
      | create j jobData =>
        simp only [call] at h
        split at h
        · next hf =>
          cases h
          exact .create halive hidle hf.1 hf.2
        · cases h
      | next =>
        cases h
        exact .next halive hidle
      | complete j result label =>
        simp only [call] at h
        split at h
        · next hc =>
          cases h
          exact .complete halive hidle hc
        · cases h
      | reclaim =>
        cases h
        exact .reclaim halive hidle
    · cases h
  | command c =>
    simp only [step] at h
    split at h
    · next halive =>
      obtain ⟨o, ho, rfl⟩ := Option.map_eq_some_iff.mp h
      exact .command halive ho
    · cases h
  | scan c jobIds =>
    simp only [step] at h
    split at h
    · next halive hscan =>
      split at h
      · next hm =>
        cases h
        exact .scan halive hscan hm.1 hm.2
      · cases h
    · cases h
  | error c =>
    simp only [step] at h
    split at h
    · next halive =>
      obtain ⟨pc, hpc, rfl⟩ := Option.map_eq_some_iff.mp h
      exact .error halive hpc
    · cases h
  | crash c =>
    simp only [step] at h
    split at h
    · next halive =>
      cases h
      exact .crash halive
    · cases h
  | tick ms =>
    cases h
    exact .tick

/-! ### What a command can do to the ids -/

section Command

variable {valid : J → Bool} {ttl now : Nat} {r : Redis J} {pc : Pc J} {o : Outcome J} {j : J}

/-- A job id a command brings into a client's locals came out of the pending list. -/
theorem command_mentions (h : command valid ttl now r pc = some o) (hj : j ∈ o.pc.mentions) :
    j ∈ pc.mentions ∨ j ∈ r.pending := by
  cases pc with
  | idle | members => cases h
  | create i p =>
    cases h
    cases p <;> cases hj
  | complete i label p =>
    cases h
    cases p <;> first | exact .inl hj | cases hj
  | next p =>
    cases h
    cases p with
    | pop =>
      simp only [getNextJob] at hj
      cases hp : r.pending with
      | nil => simp [hp, Pc.mentions] at hj
      | cons i rest =>
        right
        simp only [hp] at hj
        split at hj
        · simp only [Pc.mentions, NextPc.hand, Option.toList_some, List.mem_singleton] at hj
          simp [hj]
        · cases hj
    | data i =>
      left
      simp only [getNextJob] at hj
      split at hj
      · exact hj
      · split at hj <;> exact hj
    | expired i | corrupt i | started i t => cases hj
    | add i t | status i t | backup i t => exact .inl hj
  | reclaim f i p =>
    cases h
    left
    have hturn (g : Frame J) (h1 : g.jobIds = f.jobIds) (h2 : g.rest = f.rest)
        (hg : j ∈ (nextTurn g).mentions) : j ∈ (Pc.reclaim f i p).mentions := by
      have hmem := mem_nextTurn_mentions hg
      rw [h1, h2] at hmem
      exact List.mem_cons_of_mem _ hmem
    cases p with
    | «exists» =>
      simp only [reclaimStaleJob] at hj
      split at hj
      · exact hturn f rfl rfl hj
      · exact hj
    | backup =>
      simp only [reclaimStaleJob] at hj
      split at hj <;> exact hj
    | dropStarted => exact hturn { f with reclaimed := f.reclaimed + 1 } rfl rfl hj
    | zombie => exact hturn f rfl rfl hj
    | restore | status | push | remove | dropBackup => exact hj

/-- A command pushes only a job its client knows, or the one it is creating. -/
theorem command_pending (h : command valid ttl now r pc = some o) (hj : j ∈ o.redis.pending) :
    j ∈ r.pending ∨ j ∈ pc.mentions ∨ o.event = some (.created j) := by
  cases pc with
  | idle | members => cases h
  | create i p =>
    cases h
    cases p with
    | data | status => exact .inl hj
    | push =>
      simp only [createJob, List.mem_append, List.mem_singleton] at hj ⊢
      grind
  | complete i label p =>
    cases h
    cases p <;> exact .inl hj
  | next p =>
    cases h
    cases p with
    | pop =>
      left
      simp only [getNextJob] at hj
      cases hp : r.pending with
      | nil => simp [hp] at hj
      | cons i rest =>
        simp only [hp] at hj
        exact List.mem_cons_of_mem _ hj
    | data | expired | corrupt | add | status | backup | started => exact .inl hj
  | reclaim f i p =>
    cases h
    cases p with
    | push =>
      simp only [reclaimStaleJob, List.mem_append, List.mem_singleton] at hj
      rcases hj with hj | rfl
      · exact .inl hj
      · exact .inr (.inl (by simp [Pc.mentions]))
    | «exists» | backup | restore | status | remove | dropBackup | dropStarted | zombie =>
      exact .inl hj

/-- A command marks as processing only a job its client knows. -/
theorem command_processing (h : command valid ttl now r pc = some o)
    (hj : j ∈ o.redis.processing) : j ∈ r.processing ∨ j ∈ pc.mentions := by
  cases pc with
  | idle | members => cases h
  | create i p =>
    cases h
    cases p <;> exact .inl hj
  | complete i label p =>
    cases h
    cases p with
    | remove => exact .inl (Finset.mem_of_mem_erase hj)
    | result | status | backup | started => exact .inl hj
  | next p =>
    cases h
    cases p with
    | pop =>
      simp only [getNextJob] at hj
      split at hj <;> exact .inl hj
    | add i t =>
      rcases Finset.mem_insert.mp hj with rfl | hj
      · exact .inr (by simp [Pc.mentions, NextPc.hand])
      · exact .inl hj
    | data | expired | corrupt | status | backup | started => exact .inl hj
  | reclaim f i p =>
    cases h
    cases p with
    | remove => exact .inl (Finset.mem_of_mem_erase hj)
    | zombie => exact .inl (Finset.mem_of_mem_erase hj)
    | «exists» | backup | restore | status | push | dropBackup | dropStarted => exact .inl hj

/-- A command creates a job only for the client that is creating it, which then is done. -/
theorem command_created (h : command valid ttl now r pc = some o)
    (hj : o.event = some (.created j)) : pc.creating = some j ∧ o.pc = .idle := by
  cases pc with
  | idle | members => cases h
  | create i p =>
    cases h
    cases p <;> cases hj
    exact ⟨rfl, rfl⟩
  | complete i label p =>
    cases h
    cases p <;> cases hj
  | next p =>
    cases h
    cases p with
    | pop =>
      simp only [getNextJob] at hj
      split at hj <;> cases hj
    | data | expired | corrupt | add | status | backup | started => cases hj
  | reclaim f i p =>
    cases h
    cases p <;> cases hj

/-- No command starts the creation of a job or issues its id. -/
theorem command_creating (h : command valid ttl now r pc = some o)
    (hj : o.pc.creating = some j) : pc.creating = some j := by
  cases pc with
  | idle | members => cases h
  | create i p =>
    cases h
    cases p <;> first | exact hj | cases hj
  | complete i label p =>
    cases h
    cases p <;> cases hj
  | next p =>
    cases h
    cases p with
    | pop =>
      simp only [getNextJob] at hj
      split at hj
      · cases hj
      · dsimp only at hj
        split at hj <;> cases hj
    | data i =>
      simp only [getNextJob] at hj
      split at hj
      · cases hj
      · split at hj <;> cases hj
    | expired | corrupt | add | status | backup | started => cases hj
  | reclaim f i p =>
    cases h
    cases p with
    | «exists» =>
      simp only [reclaimStaleJob] at hj
      split at hj
      · rw [nextTurn_creating] at hj
        cases hj
      · cases hj
    | backup =>
      simp only [reclaimStaleJob] at hj
      split at hj <;> cases hj
    | dropStarted | zombie =>
      simp only [reclaimStaleJob, nextTurn_creating] at hj
      cases hj
    | restore | status | push | remove | dropBackup => cases hj

theorem command_issued (h : command valid ttl now r pc = some o) :
    o.event ≠ some (.issued j) := by
  cases pc with
  | idle | members => cases h
  | create i p =>
    cases h
    cases p <;> nofun
  | complete i label p =>
    cases h
    cases p <;> nofun
  | next p =>
    cases h
    cases p with
    | pop =>
      simp only [getNextJob]
      split <;> nofun
    | data | expired | corrupt | add | status | backup | started => nofun
  | reclaim f i p =>
    cases h
    cases p <;> nofun

end Command

/-! ### The bookkeeping of job ids -/

/-- Where job ids may occur, and who may be creating them. -/
structure Sound (cfg : Config C J) (s : State C J) : Prop where
  pending : ∀ j ∈ s.redis.pending, .created j ∈ s.log
  processing : ∀ j ∈ s.redis.processing, .created j ∈ s.log
  mentioned : ∀ c, ∀ j ∈ (s.clients c).mentions, .created j ∈ s.log
  creating : ∀ c j, (s.clients c).pc.creating = some j → .issued j ∈ s.log ∧ .created j ∉ s.log
  unique : ∀ c c' j, (s.clients c).pc.creating = some j → (s.clients c').pc.creating = some j → c = c'
  issued : ∀ j, .created j ∈ s.log → .issued j ∈ s.log
  valid : ∀ j, .issued j ∈ s.log → cfg.validateJobId j = true

omit [DecidableEq C] [DecidableEq J] in
theorem sound_initial : Sound cfg (initial : State C J) := by
  constructor <;> simp [initial, Redis.empty, Client.mentions, Pc.mentions, Pc.creating]

omit [DecidableEq J] in
/-- Replacing a client's state by one that knows and creates no new job keeps the bookkeeping. -/
theorem Sound.setClient (h : Sound cfg s) {c : C} {cl : Client J}
    (hm : ∀ j ∈ cl.mentions, .created j ∈ s.log)
    (hc : ∀ j, cl.pc.creating = some j → (s.clients c).pc.creating = some j) :
    Sound cfg (s.setClient c cl) := by
  have hold (x : C) (j : J) (hx : ((s.setClient c cl).clients x).pc.creating = some j) :
      (s.clients x).pc.creating = some j := by
    by_cases hxc : x = c
    · subst hxc
      exact hc j (by simpa [State.setClient] using hx)
    · simpa [State.setClient, hxc] using hx
  refine ⟨h.pending, h.processing, ?_, ?_, ?_, h.issued, h.valid⟩
  · intro x j hj
    by_cases hxc : x = c
    · subst hxc
      exact hm j (by simpa [State.setClient] using hj)
    · exact h.mentioned x j (by simpa [State.setClient, hxc] using hj)
  · intro x j hx
    exact h.creating x j (hold x j hx)
  · intro x y j hx hy
    exact h.unique x y j (hold x j hx) (hold y j hy)

omit [DecidableEq J] in
theorem Sound.create (h : Sound cfg s) {c : C} {j : J} {jobData : Json}
    (idle : (s.clients c).pc = .idle) (fresh : .issued j ∉ s.log)
    (valid : cfg.validateJobId j = true) :
    Sound cfg { s.setClient c { s.clients c with pc := .create j (.data jobData) } with
      log := .issued j :: s.log } := by
  have hnew (x : C) (i : J) (hx : (Function.update s.clients c
      { s.clients c with pc := .create j (.data jobData) } x).pc.creating = some i) :
      (x = c ∧ i = j) ∨ (s.clients x).pc.creating = some i := by
    by_cases hxc : x = c
    · subst hxc
      rw [Function.update_self] at hx
      exact .inl ⟨rfl, (Option.some.inj hx).symm⟩
    · exact .inr (by simpa [hxc] using hx)
  have hfresh (x : C) : (s.clients x).pc.creating ≠ some j := by
    intro hx
    exact fresh (h.creating x j hx).1
  have hkeep (i : J) (hi : .created i ∈ s.log) : Event.created i ∈ .issued j :: s.log :=
    List.mem_cons_of_mem _ hi
  refine ⟨fun i hi ↦ hkeep i (h.pending i hi), fun i hi ↦ hkeep i (h.processing i hi), ?_, ?_, ?_,
    ?_, ?_⟩
  · intro x i hi
    by_cases hxc : x = c
    · subst hxc
      refine hkeep i (h.mentioned x i ?_)
      simp only [State.setClient, Function.update_self, Client.mentions, Pc.mentions,
        List.nil_append] at hi
      simp [Client.mentions, idle, Pc.mentions, hi]
    · exact hkeep i (h.mentioned x i (by simpa [State.setClient, hxc] using hi))
  · intro x i hx
    rcases hnew x i hx with ⟨rfl, rfl⟩ | hx
    · refine ⟨by simp, ?_⟩
      intro hi
      exact fresh (h.issued i (by simpa using hi))
    · have hci := h.creating x i hx
      exact ⟨List.mem_cons_of_mem _ hci.1, by simpa using hci.2⟩
  · intro x y i hx hy
    rcases hnew x i hx with ⟨hxc, hxj⟩ | hx'
    · rcases hnew y i hy with ⟨hyc, _⟩ | hy'
      · rw [hxc, hyc]
      · exact absurd (hxj ▸ hy') (hfresh y)
    · rcases hnew y i hy with ⟨_, hyj⟩ | hy'
      · exact absurd (hyj ▸ hx') (hfresh x)
      · exact h.unique x y i hx' hy'
  · intro i hi
    exact List.mem_cons_of_mem _ (h.issued i (by simpa using hi))
  · intro i hi
    rcases List.mem_cons.mp hi with hi | hi
    · cases hi
      exact valid
    · exact h.valid i hi

theorem Sound.command (h : Sound cfg s) {c : C} {o : Outcome J}
    (runs : command cfg.validateJobId (cfg.jobTtl c) s.now s.redis (s.clients c).pc = some o) :
    Sound cfg (s.after c o) := by
  have hkeep (i : J) (hi : .created i ∈ s.log) : .created i ∈ (s.after c o).log :=
    List.mem_append_right _ hi
  have hknown (i : J) (hi : i ∈ (s.clients c).pc.mentions) : .created i ∈ s.log :=
    h.mentioned c i (List.mem_append_left _ hi)
  have hnew (i : J) (hi : .created i ∈ (s.after c o).log) :
      o.event = some (.created i) ∨ .created i ∈ s.log := by
    rcases List.mem_append.mp hi with hi | hi
    · exact .inl (by simpa using hi)
    · exact .inr hi
  have hcreating (x : C) (i : J) (hx : ((s.after c o).clients x).pc.creating = some i) :
      (s.clients x).pc.creating = some i := by
    by_cases hxc : x = c
    · subst hxc
      exact command_creating runs (by simpa [State.after] using hx)
    · simpa [State.after, hxc] using hx
  refine ⟨?_, ?_, ?_, ?_, ?_, ?_, ?_⟩
  · intro i hi
    rcases command_pending runs hi with hi | hi | hi
    · exact hkeep i (h.pending i hi)
    · exact hkeep i (hknown i hi)
    · exact List.mem_append_left _ (by simp [hi])
  · intro i hi
    rcases command_processing runs hi with hi | hi
    · exact hkeep i (h.processing i hi)
    · exact hkeep i (hknown i hi)
  · intro x i hi
    by_cases hxc : x = c
    · subst hxc
      simp only [State.after, Function.update_self, Client.mentions, Client.replied_pc,
        Client.replied_jobs, List.map_append, List.mem_append, List.mem_map] at hi
      rcases hi with hi | ⟨job, hjob, rfl⟩ | hi
      · rcases command_mentions runs hi with hi | hi
        · exact hkeep i (hknown i hi)
        · exact hkeep i (h.pending i hi)
      · exact hkeep _ (hknown _ (pulledJob_mentions hjob))
      · exact hkeep i (h.mentioned x i (List.mem_append_right _ (List.mem_map.mpr hi)))
    · exact hkeep i (h.mentioned x i (by simpa [State.after, hxc] using hi))
  · intro x i hx
    have hci := h.creating x i (hcreating x i hx)
    refine ⟨List.mem_append_right _ hci.1, ?_⟩
    intro hi
    rcases hnew i hi with hi | hi
    · -- the client that created the job is idle now, and no other was creating it
      obtain ⟨hc, hidle⟩ := command_created runs hi
      have hxc := h.unique x c i (hcreating x i hx) hc
      subst hxc
      simp [State.after, hidle, Pc.creating] at hx
    · exact hci.2 hi
  · intro x y i hx hy
    exact h.unique x y i (hcreating x i hx) (hcreating y i hy)
  · intro i hi
    refine List.mem_append_right _ ?_
    rcases hnew i hi with hi | hi
    · exact (h.creating c i (command_created runs hi).1).1
    · exact h.issued i hi
  · intro i hi
    rcases List.mem_append.mp hi with hi | hi
    · exact absurd (by simpa using hi) (command_issued runs (j := i))
    · exact h.valid i hi

/-- The bookkeeping holds after every step. -/
theorem Sound.step (h : Sound cfg s) {a : Action C J} (hs : step cfg s a = some s') :
    Sound cfg s' := by
  have hjobs (c : C) (j : J) (hj : j ∈ (s.clients c).jobs.map Prod.fst) : .created j ∈ s.log :=
    h.mentioned c j (List.mem_append_right _ hj)
  cases step_cases hs with
  | create alive idle fresh valid => exact h.create idle fresh valid
  | @next c alive idle =>
    apply h.setClient
    · intro j hj
      exact hjobs c j (by simpa [Client.mentions, Pc.mentions, NextPc.hand] using hj)
    · intro j hj
      cases hj
  | @complete c j result label alive idle created =>
    apply h.setClient
    · intro i hi
      simp only [Client.mentions, Pc.mentions, List.cons_append, List.nil_append,
        List.mem_cons] at hi
      rcases hi with rfl | hi
      · exact created
      · refine hjobs c i ?_
        obtain ⟨job, hjob, rfl⟩ := List.mem_map.mp hi
        exact List.mem_map.mpr ⟨job, (List.mem_filter.mp hjob).1, rfl⟩
    · intro j hj
      cases hj
  | @reclaim c alive idle =>
    apply h.setClient
    · intro j hj
      exact hjobs c j (by simpa [Client.mentions, Pc.mentions] using hj)
    · intro j hj
      cases hj
  | command alive runs => exact h.command runs
  | @scan c jobIds alive atScan nodup members =>
    apply h.setClient
    · intro j hj
      rcases List.mem_append.mp hj with hj | hj
      · have hmem := mem_nextTurn_mentions hj
        rw [List.mem_append, or_self] at hmem
        exact h.processing j (by rw [← members]; exact List.mem_toFinset.mpr hmem)
      · exact hjobs c j hj
    · intro j hj
      rw [nextTurn_creating] at hj
      cases hj
  | @error c pc alive raises =>
    rcases afterError_cases raises with rfl | ⟨f, i, p, hpc, rfl⟩
    · apply h.setClient
      · intro j hj
        exact hjobs c j (by simpa [Client.mentions, Pc.mentions] using hj)
      · intro j hj
        cases hj
    · apply h.setClient
      · intro j hj
        rcases List.mem_append.mp hj with hj | hj
        · refine h.mentioned c j (List.mem_append_left _ ?_)
          rw [hpc]
          exact List.mem_cons_of_mem _ (mem_nextTurn_mentions hj)
        · exact hjobs c j hj
      · intro j hj
        rw [nextTurn_creating] at hj
        cases hj
  | @crash c alive =>
    apply h.setClient
    · intro j hj
      exact h.mentioned c j hj
    · intro j hj
      exact hj
  | tick => exact ⟨h.pending, h.processing, h.mentioned, h.creating, h.unique, h.issued, h.valid⟩

/-- The bookkeeping holds in every reachable state. -/
theorem sound_of_reachWhen {ok : State C J → Action C J → Prop}
    (h : (system cfg).ReachWhen ok s) : Sound cfg s := by
  apply h.invariant
  · intro t ht
    rw [ht]
    exact sound_initial
  · intro t a t' ht _ hs
    exact ht.step hs

end Steps

end GithubAgent.Queue
