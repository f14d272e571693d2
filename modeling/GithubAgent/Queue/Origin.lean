import GithubAgent.Queue.Token

/-!
# The data that a job was created with

The text of a job goes from `create_job` to its data key, through the locals of `get_next_job` to
its backup, and without the token from there back to its data key. Of every text on the way holds
what holds of the text that the job was created with.
-/

namespace GithubAgent.Queue

open GithubAgent.Base

section Locals

variable {J : Type}

/-- The texts in the locals of a client, each with its job. -/
def Pc.jobTexts : Pc J → List (J × JsonText)
  | .create j (.data jobData) => [(j, .dumps jobData)]
  | .next (.add j text) | .next (.status j text) | .next (.backup j text)
  | .next (.started j text) => [(j, text)]
  | .reclaim _ j (.restore text) => [(j, text)]
  | _ => []

theorem jobTexts_nextTurn (f : Frame J) : (nextTurn f).jobTexts = [] := by
  unfold nextTurn
  split <;> rfl

theorem jobTexts_of_pulledJob {pc : Pc J} {job : J × JsonText} (h : job ∈ pulledJob pc) :
    job ∈ pc.jobTexts := by
  cases pc with
  | next p =>
    cases p with
    | started => exact h
    | pop | data | expired | corrupt | add | status | backup => cases h
  | idle | create | complete | members | reclaim => cases h

end Locals

section Command

variable {J : Type} [DecidableEq J] {valid : J → Bool} {ttl now : Nat} {r : Redis J} {pc : Pc J}
  {o : Outcome J} {j : J}

theorem cell_setex_of {V : Type} {m : Keys J V} {i : J} {seconds : Nat} {v : V} {cell : Cell V}
    (h : m.setex now i seconds v j = some cell) :
    m j = some cell ∨ (i, v) = (j, cell.value) := by
  by_cases hij : j = i
  · rw [hij, Keys.setex, Function.update_self] at h
    cases h
    exact .inr (by rw [hij])
  · rw [Keys.setex, Function.update_of_ne hij] at h
    exact .inl h

theorem cell_of_command_data (h : command valid ttl now r pc = some o) {cell : Cell JsonText}
    (hcell : o.redis.data j = some cell) :
    r.data j = some cell ∨ (j, cell.value) ∈ pc.jobTexts := by
  cases pc with
  | idle | members => cases h
  | create i p =>
    cases h
    cases p with
    | data jobData =>
      rcases cell_setex_of hcell with hold | hnew
      · exact .inl hold
      · exact .inr (List.mem_singleton.mpr hnew.symm)
    | status | push => exact .inl hcell
  | complete i label p =>
    cases h
    cases p <;> exact .inl hcell
  | next p =>
    cases h
    cases p with
    | pop =>
      simp only [getNextJob] at hcell
      split at hcell <;> exact .inl hcell
    | data | expired | corrupt | add | status | backup | started => exact .inl hcell
  | reclaim f i p =>
    cases h
    cases p with
    | restore text =>
      rcases cell_setex_of hcell with hold | hnew
      · exact .inl hold
      · exact .inr (List.mem_singleton.mpr hnew.symm)
    | «exists» | backup | status | push | remove | dropBackup | dropStarted | zombie =>
      exact .inl hcell

theorem cell_of_command_backup (h : command valid ttl now r pc = some o) {cell : Cell JsonText}
    (hcell : o.redis.backup j = some cell) :
    r.backup j = some cell ∨ (j, cell.value) ∈ pc.jobTexts := by
  cases pc with
  | idle | members => cases h
  | create i p =>
    cases h
    cases p <;> exact .inl hcell
  | complete i label p =>
    cases h
    cases p with
    | backup => exact .inl (cell_del hcell)
    | result | status | remove | started => exact .inl hcell
  | next p =>
    cases h
    cases p with
    | pop =>
      simp only [getNextJob] at hcell
      split at hcell <;> exact .inl hcell
    | backup i text =>
      rcases cell_setex_of hcell with hold | hnew
      · exact .inl hold
      · exact .inr (List.mem_singleton.mpr hnew.symm)
    | data | expired | corrupt | add | status | started => exact .inl hcell
  | reclaim f i p =>
    cases h
    cases p with
    | dropBackup => exact .inl (cell_del hcell)
    | «exists» | backup | restore | status | push | remove | dropStarted | zombie =>
      exact .inl hcell

/-- Where the text in the locals comes from: it was there, it is read from the data key, or it is
the backup without its token. -/
theorem command_jobTexts (h : command valid ttl now r pc = some o) {text : JsonText}
    (htext : (j, text) ∈ o.pc.jobTexts) :
    (j, text) ∈ pc.jobTexts ∨ readText r.data now j = some text ∨
      ∃ backup, readText r.backup now j = some backup ∧ text = restoredText backup := by
  cases pc with
  | idle | members => cases h
  | create i p =>
    cases h
    cases p <;> cases htext
  | complete i label p =>
    cases h
    cases p <;> cases htext
  | next p =>
    cases h
    cases p with
    | pop =>
      simp only [getNextJob] at htext
      split at htext
      · cases htext
      · dsimp only at htext
        split at htext <;> cases htext
    | data i =>
      simp only [getNextJob] at htext
      split at htext
      · cases htext
      · next found hfound =>
        split at htext
        · cases htext
        · cases List.mem_singleton.mp htext
          exact .inr (.inl hfound)
    | add | status | backup => exact .inl htext
    | expired | corrupt | started => cases htext
  | reclaim f i p =>
    cases h
    cases p with
    | «exists» =>
      simp only [reclaimStaleJob] at htext
      split at htext
      · rw [jobTexts_nextTurn] at htext
        cases htext
      · cases htext
    | backup =>
      simp only [reclaimStaleJob] at htext
      split at htext
      · next found hfound =>
        cases List.mem_singleton.mp htext
        exact .inr (.inr ⟨found, hfound, rfl⟩)
      · cases htext
    | dropStarted | zombie =>
      simp only [reclaimStaleJob, jobTexts_nextTurn] at htext
      cases htext
    | restore | status | push | remove | dropBackup => cases htext

end Command

/-! ### The texts of all jobs -/

section Texts

variable {C J : Type}

/-- Every text of a job, wherever it is, is as `P` says. -/
structure TextsOf (P : J → JsonText → Prop) (s : State C J) : Prop where
  data : ∀ j cell, s.redis.data j = some cell → P j cell.value
  backup : ∀ j cell, s.redis.backup j = some cell → P j cell.value
  locals : ∀ c j text, (j, text) ∈ (s.clients c).pc.jobTexts → P j text
  jobs : ∀ c, ∀ job ∈ (s.clients c).jobs, P job.1 job.2

variable {P Q : J → JsonText → Prop} {s s' : State C J}

theorem TextsOf.mono (h : TextsOf P s) (hPQ : ∀ j text, P j text → Q j text) : TextsOf Q s where
  data j cell hcell := hPQ j _ (h.data j cell hcell)
  backup j cell hcell := hPQ j _ (h.backup j cell hcell)
  locals c j text htext := hPQ j text (h.locals c j text htext)
  jobs c job hjob := hPQ job.1 job.2 (h.jobs c job hjob)

theorem textsOf_initial : TextsOf P (initial : State C J) where
  data _ _ h := nomatch h
  backup _ _ h := nomatch h
  locals _ _ _ h := nomatch h
  jobs _ _ h := nomatch h

variable [DecidableEq C]

theorem TextsOf.setClient (h : TextsOf P s) {c : C} {cl : Client J} {log : List (Event J)}
    (hlocals : ∀ j text, (j, text) ∈ cl.pc.jobTexts → P j text)
    (hjobs : cl.jobs ⊆ (s.clients c).jobs) :
    TextsOf P { s.setClient c cl with log := log } := by
  constructor
  · exact h.data
  · exact h.backup
  · intro x j text hx
    by_cases hxc : x = c
    · rw [hxc] at hx
      apply hlocals
      simpa [State.setClient] using hx
    · exact h.locals x j text (by simpa [State.setClient, hxc] using hx)
  · intro x job hx
    by_cases hxc : x = c
    · rw [hxc] at hx
      exact h.jobs c job (hjobs (by simpa [State.setClient] using hx))
    · exact h.jobs x job (by simpa [State.setClient, hxc] using hx)

variable [DecidableEq J] {cfg : Config C J}

theorem TextsOf.command (h : TextsOf P s)
    (hrestored : ∀ j text, P j text → P j (restoredText text)) {c : C} {o : Outcome J}
    (runs : command cfg.validateJobId (cfg.jobTtl c) s.now s.redis (s.clients c).pc = some o) :
    TextsOf P (s.after c o) := by
  constructor
  · intro j cell hcell
    rcases cell_of_command_data runs hcell with hold | hnew
    · exact h.data j cell hold
    · exact h.locals c j _ hnew
  · intro j cell hcell
    rcases cell_of_command_backup runs hcell with hold | hnew
    · exact h.backup j cell hold
    · exact h.locals c j _ hnew
  · intro x j text hx
    by_cases hxc : x = c
    · rw [hxc] at hx
      have htext : (j, text) ∈ o.pc.jobTexts := by simpa [State.after] using hx
      rcases command_jobTexts runs htext with hold | hread | ⟨backup, hread, rfl⟩
      · exact h.locals c j text hold
      · obtain ⟨cell, hcell, rfl⟩ := exists_cell_of_readText hread
        exact h.data j cell hcell
      · obtain ⟨cell, hcell, rfl⟩ := exists_cell_of_readText hread
        exact hrestored j _ (h.backup j cell hcell)
    · exact h.locals x j text (by simpa [State.after, hxc] using hx)
  · intro x job hx
    by_cases hxc : x = c
    · rw [hxc] at hx
      have hmem : job ∈ pulledJob (s.clients c).pc ++ (s.clients c).jobs := by
        simpa [State.after] using hx
      rcases List.mem_append.mp hmem with hpulled | hold
      · exact h.locals c _ _ (jobTexts_of_pulledJob hpulled)
      · exact h.jobs c job hold
    · exact h.jobs x job (by simpa [State.after, hxc] using hx)

/-- What holds of the text of a created job, with and without its token, holds of every text. -/
theorem TextsOf.step (h : TextsOf P s)
    (hrestored : ∀ j text, P j text → P j (restoredText text)) {a : Action C J}
    (hcreate : ∀ c j jobData, a = .call c (.create j jobData) → P j (.dumps jobData))
    (hs : step cfg s a = some s') : TextsOf P s' := by
  have hnone {cl : Client J} (hpc : cl.pc.jobTexts = []) (j : J) (text : JsonText)
      (htext : (j, text) ∈ cl.pc.jobTexts) : P j text := by
    rw [hpc] at htext
    cases htext
  cases step_cases hs with
  | @create c j jobData =>
    apply h.setClient
    · intro i text htext
      cases List.mem_singleton.mp htext
      exact hcreate c j jobData rfl
    · exact List.Subset.refl _
  | next | reclaim => exact h.setClient (hnone rfl) (List.Subset.refl _)
  | complete => exact h.setClient (hnone rfl) fun _ hx ↦ List.mem_of_mem_filter hx
  | command alive runs => exact h.command hrestored runs
  | scan => exact h.setClient (hnone (jobTexts_nextTurn _)) (List.Subset.refl _)
  | error alive raises =>
    refine h.setClient (hnone ?_) (List.Subset.refl _)
    rcases afterError_cases raises with rfl | ⟨f, j, p, -, rfl⟩
    · rfl
    · exact jobTexts_nextTurn f
  | @crash c alive => exact h.setClient (h.locals c) (List.Subset.refl _)
  | tick => exact ⟨h.data, h.backup, h.locals, h.jobs⟩

end Texts

/-! ### The token -/

/-- A text is what a job was created with, as it was or without the token. -/
def IsDataOf (jobData : Json) (text : JsonText) : Prop :=
  text = .dumps jobData ∨ text = restoredText (.dumps jobData)

/-- The token is taken out once. -/
theorem restoredText_restoredText (text : JsonText) :
    restoredText (restoredText text) = restoredText text := by
  cases text with
  | dumps v =>
    cases v with
    | obj fields =>
      show JsonText.dumps (.obj (Json.erase _ (Json.erase _ fields))) = .dumps (.obj _)
      rw [Json.erase, Json.erase, List.filter_filter]
      simp only [Bool.and_self]
    | _ => rfl
  | _ => rfl

theorem IsDataOf.restored {jobData : Json} {text : JsonText} (h : IsDataOf jobData text) :
    IsDataOf jobData (restoredText text) := by
  rcases h with rfl | rfl
  · exact .inr rfl
  · exact .inr (restoredText_restoredText _)

end GithubAgent.Queue
