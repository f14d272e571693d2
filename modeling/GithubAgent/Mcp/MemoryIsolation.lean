import GithubAgent.Mcp.Memory

/-!
# Memories are apart

Servers of any number of repositories read their lines in any order on one machine. Each of them
answers as if it were alone, and no file outside the memory of a repository changes.
-/

namespace GithubAgent.Mcp.Memory

open GithubAgent.Base GithubAgent.Shared

/-! ### Repositories and their directories -/

/-- One part of a path. -/
def IsName (name : String) : Prop :=
  name ≠ "" ∧ name ≠ "." ∧ name ≠ ".." ∧ '/' ∉ name.toList ∧ '\x00' ∉ name.toList

instance (name : String) : Decidable (IsName name) :=
  inferInstanceAs (Decidable (_ ∧ _))

/-- A repository by its owner and its name. -/
structure Repository where
  owner : String
  name : String
  owner_valid : IsName owner
  name_valid : IsName name
  deriving DecidableEq

/-- What `GITHUB_REPOSITORY` holds. -/
def Repository.slug (r : Repository) : String := r.owner ++ "/" ++ r.name

/-- A home directory, by its path. -/
structure Home where
  parts : List String
  plain : ∀ part ∈ parts, IsName part

/-- The directory of a repository's memory. -/
def memoryDir (home : Home) (r : Repository) : List String :=
  home.parts ++ [".claude", "memory", r.owner, r.name, "memory"]

variable {home : Home} {r r' : Repository}

theorem IsName.of_joinPath {name : String} (h : IsName name) :
    name ≠ "" ∧ name ≠ "." ∧ '/' ∉ name.toList :=
  ⟨h.1, h.2.1, h.2.2.2.1⟩

/-- A text without a slash is one part. -/
theorem joinPath_name (base : List String) {name : String} (h : IsName name) :
    joinPath base name = base ++ [name] :=
  joinPath_of_plain base h.2.2.2.1 (fun hempty ↦ h.1 (String.toList_inj.mp hempty))
    fun hdot ↦ h.2.1 (String.toList_inj.mp hdot)

theorem joinPath_slug (base : List String) (r : Repository) :
    joinPath base r.slug = base ++ [r.owner, r.name] := by
  have hslug : r.slug = "/".intercalate [r.owner, r.name] := by
    apply String.toList_inj.mp
    simp [Repository.slug]
  rw [hslug]
  refine joinPath_intercalate base (List.cons_ne_nil _ _) fun part hpart ↦ ?_
  rcases List.mem_cons.mp hpart with rfl | hpart
  · exact r.owner_valid.of_joinPath
  · rw [List.mem_singleton.mp hpart]
    exact r.name_valid.of_joinPath

theorem getMemoryDir_slug (home : Home) (r : Repository) :
    getMemoryDir home.parts r.slug = memoryDir home r := by
  simp only [getMemoryDir, List.foldl_cons, List.foldl_nil, joinPath_slug,
    joinPath_name _ (show IsName ".claude" by decide),
    joinPath_name _ (show IsName "memory" by decide), memoryDir, List.append_assoc,
    List.cons_append, List.nil_append]

/-! ### Resolved paths -/

theorem foldl_resolve_of_plain {path : List String} (h : ".." ∉ path) (done : List String) :
    path.foldl (fun done part ↦ if part = ".." then done.dropLast else done ++ [part]) done =
      done ++ path := by
  induction path generalizing done with
  | nil => exact (List.append_nil done).symm
  | cons part rest ih =>
    rw [List.mem_cons, not_or] at h
    rw [List.foldl_cons, if_neg (Ne.symm h.1), ih h.2, List.append_assoc, List.singleton_append]

theorem resolve_of_plain {path : List String} (h : ".." ∉ path) : resolve path = path :=
  foldl_resolve_of_plain h []

/-- No step up is left. -/
theorem dotdot_notMem_resolve (path : List String) : ".." ∉ resolve path := by
  have hfold (done : List String) (h : ".." ∉ done) : ".." ∉ path.foldl
      (fun done part ↦ if part = ".." then done.dropLast else done ++ [part]) done := by
    induction path generalizing done with
    | nil => exact h
    | cons part rest ih =>
      rw [List.foldl_cons]
      split
      · exact ih _ fun hmem ↦ h (List.mem_of_mem_dropLast hmem)
      · next hpart =>
        refine ih _ fun hmem ↦ ?_
        rcases List.mem_append.mp hmem with hmem | hmem
        · exact h hmem
        · exact hpart (List.mem_singleton.mp hmem).symm
  exact hfold [] List.not_mem_nil

theorem resolve_resolve (path : List String) : resolve (resolve path) = resolve path :=
  resolve_of_plain (dotdot_notMem_resolve path)

theorem dotdot_notMem_memoryDir (home : Home) (r : Repository) : ".." ∉ memoryDir home r := by
  intro h
  rcases List.mem_append.mp h with h | h
  · exact (home.plain _ h).2.2.1 rfl
  · simp only [List.mem_cons, List.not_mem_nil, or_false] at h
    rcases h with h | h | h | h | h
    · exact absurd h (by decide)
    · exact absurd h (by decide)
    · exact r.owner_valid.2.2.1 h.symm
    · exact r.name_valid.2.2.1 h.symm
    · exact absurd h (by decide)

theorem resolve_memoryDir (home : Home) (r : Repository) :
    resolve (memoryDir home r) = memoryDir home r :=
  resolve_of_plain (dotdot_notMem_memoryDir home r)

theorem validatePath_eq_ok {path base : List String} {u : Unit}
    (h : validatePath path base = .ok u) : resolve base <+: resolve path := by
  unfold validatePath at h
  split at h
  · next hprefix => exact List.isPrefixOf_iff_prefix.mp hprefix
  · cases h

/-- An argument names a file below the memory directory, or an exception is raised. -/
theorem fullPath_eq_ok {m : Messages} {v : Json} {path : List String}
    (h : fullPath m (memoryDir home r) v = .ok path) :
    ∃ note, path = memoryDir home r ++ note := by
  unfold fullPath at h
  split at h
  · next filePath =>
    split at h
    · cases h
    · obtain ⟨_, hvalid, rfl⟩ := Disk.map_eq_ok h
      have hprefix := validatePath_eq_ok hvalid
      rw [resolve_resolve, resolve_memoryDir] at hprefix
      obtain ⟨note, hnote⟩ := hprefix
      exact ⟨note, hnote.symm⟩
  · cases h

/-- No memory lies in another one. -/
theorem repository_eq_of_within {note : List String}
    (h : memoryDir home r <+: memoryDir home r' ++ note) : r = r' := by
  have hlength : (memoryDir home r).length = (memoryDir home r').length := by
    simp [memoryDir]
  have heq : memoryDir home r = memoryDir home r' :=
    (List.prefix_of_prefix_length_le h (List.prefix_append _ _) hlength.le).eq_of_length hlength
  have hparts := List.append_cancel_left heq
  simp only [List.cons.injEq, and_true, true_and] at hparts
  obtain ⟨owner, name, _, _⟩ := r
  obtain ⟨owner', name', _, _⟩ := r'
  obtain ⟨rfl, rfl⟩ := hparts
  rfl

/-! ### What a server sees -/

/-- Two states of the machine that the server of a memory cannot tell apart: they agree from its
directory on, and on the files in the place of directories above. -/
structure SameMemory (base : List String) (d d' : Files) : Prop where
  below : Disk.get? (some d) base = Disk.get? (some d') base
  above : ∀ q, q <+: base → Disk.fileAt (some d) q = Disk.fileAt (some d') q

section SameMemory

variable {m : Messages} {base : List String} {d d' d₁ d₁' : Files}

theorem SameMemory.refl (base : List String) (d : Files) : SameMemory base d d :=
  ⟨rfl, fun _ _ ↦ rfl⟩

theorem SameMemory.symm (h : SameMemory base d d') : SameMemory base d' d :=
  ⟨h.below.symm, fun q hq ↦ (h.above q hq).symm⟩

theorem SameMemory.trans (h : SameMemory base d d') (h' : SameMemory base d' d₁) :
    SameMemory base d d₁ :=
  ⟨h.below.trans h'.below, fun q hq ↦ (h.above q hq).trans (h'.above q hq)⟩

theorem SameMemory.get? (h : SameMemory base d d') (note : List String) :
    Disk.get? (some d) (base ++ note) = Disk.get? (some d') (base ++ note) := by
  rw [Disk.get?_append, Disk.get?_append, h.below]

theorem SameMemory.isDir (h : SameMemory base d d') (note : List String) :
    Disk.isDir (some d) (base ++ note) = Disk.isDir (some d') (base ++ note) := by
  rw [Disk.isDir_append, Disk.isDir_append, h.below]

/-- They agree on the files on the way to a note. -/
theorem SameMemory.fileAt (h : SameMemory base d d') {q note : List String}
    (hq : q <+: base ++ note) : Disk.fileAt (some d) q = Disk.fileAt (some d') q := by
  rcases List.prefix_or_prefix_of_prefix hq (List.prefix_append base note) with hq | ⟨more, rfl⟩
  · exact h.above q hq
  · rw [Disk.fileAt_append, Disk.fileAt_append, h.below]

/-- Directories on the way to a note are made alike. -/
theorem SameMemory.mkdirs (h : SameMemory base d d') {path note : List String}
    (hpath : path <+: base ++ note) :
    (∃ e, Disk.mkdirs (some d) path = .error e ∧ Disk.mkdirs (some d') path = .error e) ∨
      ∃ d₁ d₁', Disk.mkdirs (some d) path = .ok d₁ ∧ Disk.mkdirs (some d') path = .ok d₁' ∧
        SameMemory base d₁ d₁' := by
  have herror := Disk.mkdirs_error_congr fun q (hq : q <+: path) ↦ h.fileAt (hq.trans hpath)
  cases hmade : Disk.mkdirs (some d) path with
  | error e => exact .inl ⟨e, rfl, (herror e).mp hmade⟩
  | ok d₁ =>
    cases hmade' : Disk.mkdirs (some d') path with
    | error e => cases ((herror e).mpr hmade').symm.trans hmade
    | ok d₁' =>
      refine .inr ⟨d₁, d₁', rfl, rfl, ?_, fun q hq ↦ ?_⟩
      · by_cases hbase : base <+: path
        · obtain ⟨more, rfl⟩ := hbase
          obtain ⟨u, hu, hget⟩ := Disk.mkdirs_append hmade
          obtain ⟨u', hu', hget'⟩ := Disk.mkdirs_append hmade'
          rw [h.below, hu'] at hu
          rw [hget, hget', Except.ok.inj hu]
        · rw [Disk.get?_mkdirs_of_not_prefix hmade hbase,
            Disk.get?_mkdirs_of_not_prefix hmade' hbase, h.below]
      · rw [Disk.fileAt_mkdirs hmade, Disk.fileAt_mkdirs hmade', h.above q hq]

/-- A note is written alike. -/
theorem SameMemory.write (h : SameMemory base d d') {text : String} {note : List String}
    (hwritten : Disk.write text (some d) (base ++ note) = .ok d₁)
    (hwritten' : Disk.write text (some d') (base ++ note) = .ok d₁') : SameMemory base d₁ d₁' := by
  obtain ⟨u, hu, hget⟩ := Disk.write_append hwritten
  obtain ⟨u', hu', hget'⟩ := Disk.write_append hwritten'
  rw [h.below, hu'] at hu
  refine ⟨by rw [hget, hget', Except.ok.inj hu], fun q hq ↦ ?_⟩
  rw [Disk.fileAt_write hwritten, Disk.fileAt_write hwritten', h.above q hq]

end SameMemory

/-! ### One call -/

section Call

variable {m : Messages} {d d' : Files} {filePath content : Json}

theorem readFile_congr (h : SameMemory (memoryDir home r) d d') :
    readFile m d (memoryDir home r) filePath = readFile m d' (memoryDir home r) filePath := by
  unfold readFile
  cases hfull : fullPath m (memoryDir home r) filePath with
  | error e => rfl
  | ok path =>
    obtain ⟨note, rfl⟩ := fullPath_eq_ok hfull
    dsimp only [Except.bind]
    rw [h.get? note]

theorem memoryRead_congr (h : SameMemory (memoryDir home r) d d') :
    memoryRead m home.parts d filePath r.slug = memoryRead m home.parts d' filePath r.slug := by
  unfold memoryRead
  rw [getMemoryDir_slug]
  cases filePath with
  | null =>
    unfold listedFiles
    rw [resolve_memoryDir, h.below]
  | _ => exact readFile_congr h

/-- After the parents are made, a file is written unless a directory is in its place. -/
theorem write_after_mkdirs {path : List String} {d₁ : Files} (hne : path ≠ [])
    (hmade : Disk.mkdirs (some d) path.dropLast = .ok d₁) (text : String) :
    if Disk.isDir (some d₁) path then Disk.write text (some d₁) path = .error .isADirectory
    else ∃ d₂, Disk.write text (some d₁) path = .ok d₂ := by
  have hparent : Disk.isDir (some d₁) path.dropLast = true :=
    (Disk.isDir_mkdirs hmade _).mpr (.inr List.prefix_rfl)
  rw [← List.dropLast_concat_getLast hne]
  exact Disk.write_of_isDir hparent

theorem memoryDir_append_ne_nil (home : Home) (r : Repository) (note : List String) :
    memoryDir home r ++ note ≠ [] := by
  simp [memoryDir]

/-- A call of `memory_write` answers alike, and leaves the memory alike. -/
theorem memoryWrite_congr (h : SameMemory (memoryDir home r) d d') :
    (memoryWrite m home.parts d filePath content r.slug).2 =
        (memoryWrite m home.parts d' filePath content r.slug).2 ∧
      SameMemory (memoryDir home r) (memoryWrite m home.parts d filePath content r.slug).1
        (memoryWrite m home.parts d' filePath content r.slug).1 := by
  unfold memoryWrite
  rw [getMemoryDir_slug]
  cases hfull : fullPath m (memoryDir home r) filePath with
  | error e => exact ⟨rfl, h⟩
  | ok path =>
    obtain ⟨note, rfl⟩ := fullPath_eq_ok hfull
    dsimp only
    rcases h.mkdirs (List.dropLast_prefix _) with ⟨e, hmade, hmade'⟩ | ⟨d₁, d₁', hmade, hmade', h₁⟩
    · rw [hmade, hmade']
      exact ⟨rfl, h⟩
    · rw [hmade, hmade']
      dsimp only
      cases content with
      | str text =>
        have hwrite := write_after_mkdirs (memoryDir_append_ne_nil home r note) hmade text
        have hwrite' := write_after_mkdirs (memoryDir_append_ne_nil home r note) hmade' text
        rw [← h₁.isDir note] at hwrite'
        dsimp only
        split at hwrite
        · next hdir =>
          rw [if_pos hdir] at hwrite'
          rw [hwrite, hwrite']
          exact ⟨rfl, h₁⟩
        · next hdir =>
          rw [if_neg hdir] at hwrite'
          obtain ⟨d₂, hd₂⟩ := hwrite
          obtain ⟨d₂', hd₂'⟩ := hwrite'
          rw [hd₂, hd₂']
          exact ⟨rfl, h₁.write hd₂ hd₂'⟩
      | _ => exact ⟨rfl, h₁⟩

/-- What a call of `memory_write` does to the files: nothing, or it makes the parents of a note,
and then perhaps writes it. -/
theorem memoryWrite_cases (m : Messages) (home : Home) (r : Repository) (d : Files)
    (filePath content : Json) :
    (memoryWrite m home.parts d filePath content r.slug).1 = d ∨
      ∃ note d₁, Disk.mkdirs (some d) (memoryDir home r ++ note).dropLast = .ok d₁ ∧
        ((memoryWrite m home.parts d filePath content r.slug).1 = d₁ ∨
          ∃ text, Disk.write text (some d₁) (memoryDir home r ++ note) =
            .ok (memoryWrite m home.parts d filePath content r.slug).1) := by
  unfold memoryWrite
  rw [getMemoryDir_slug]
  cases hfull : fullPath m (memoryDir home r) filePath with
  | error e => exact .inl rfl
  | ok path =>
    obtain ⟨note, rfl⟩ := fullPath_eq_ok hfull
    dsimp only
    cases hmade : Disk.mkdirs (some d) (memoryDir home r ++ note).dropLast with
    | error e => exact .inl rfl
    | ok d₁ =>
      refine .inr ⟨note, d₁, hmade, ?_⟩
      cases content with
      | str text =>
        dsimp only
        cases hwritten : Disk.write text (some d₁) (memoryDir home r ++ note) with
        | error e => exact .inl rfl
        | ok d₂ => exact .inr ⟨text, hwritten⟩
      | _ => exact .inl rfl

/-- A call for one repository leaves the memory of another one as it is. -/
theorem memoryWrite_other (hr : r ≠ r') (d : Files) (filePath content : Json) :
    SameMemory (memoryDir home r) d (memoryWrite m home.parts d filePath content r'.slug).1 := by
  rcases memoryWrite_cases m home r' d filePath content with hsame | ⟨note, d₁, hmade, hlast⟩
  · rw [hsame]
    exact .refl _ d
  · have houtside {q : List String} (hq : q <+: memoryDir home r' ++ note) :
        ¬ memoryDir home r <+: q := fun hbase ↦ hr (repository_eq_of_within (hbase.trans hq))
    have hparents : SameMemory (memoryDir home r) d d₁ :=
      ⟨(Disk.get?_mkdirs_of_not_prefix hmade (houtside (List.dropLast_prefix _))).symm,
        fun q _ ↦ (Disk.fileAt_mkdirs hmade q).symm⟩
    rcases hlast with hlast | ⟨text, hwritten⟩
    · rw [hlast]
      exact hparents
    · refine hparents.trans
        ⟨(Disk.get?_write_of_not_prefix hwritten (houtside List.prefix_rfl)).symm, fun q hq ↦ ?_⟩
      rw [Disk.fileAt_write hwritten, if_neg]
      rintro rfl
      have hinside : memoryDir home r' <+: memoryDir home r ++ [] := by
        rw [List.append_nil]
        exact (List.prefix_append _ note).trans hq
      exact hr (repository_eq_of_within hinside).symm

end Call

/-! ### Servers -/

section Servers

variable (f : Json.FloatText) (m : Messages) (home : Home)

/-- The server of a repository reads a line: the files it leaves, and what it writes. -/
def serveLine (disk : Files) (r : Repository) (line : Line) : Files × List Json :=
  (match line with
    | .value request =>
      if hasId request = some true then (handleRequest f m home.parts r.slug disk request).1
      else disk
    | _ => disk,
    handleLine f (fun _ request ↦ (handleRequest f m home.parts r.slug disk request).2) 0 line)

/-- Servers read lines, in any order: the files they leave, and what each of them writes. -/
def serveAll : Files → List (Repository × Line) → Files × List (Repository × List Json)
  | disk, [] => (disk, [])
  | disk, (r, line) :: rest =>
    ((serveAll (serveLine f m home disk r line).1 rest).1,
      (r, (serveLine f m home disk r line).2) ::
        (serveAll (serveLine f m home disk r line).1 rest).2)

variable {f m home} {d d' : Files}

theorem handleRequest_congr (h : SameMemory (memoryDir home r) d d') (request : Json) :
    (handleRequest f m home.parts r.slug d request).2 =
        (handleRequest f m home.parts r.slug d' request).2 ∧
      SameMemory (memoryDir home r) (handleRequest f m home.parts r.slug d request).1
        (handleRequest f m home.parts r.slug d' request).1 := by
  unfold handleRequest
  cases parseRequest m r.slug request with
  | fields response => exact ⟨rfl, h⟩
  | raises => exact ⟨rfl, h⟩
  | read filePath =>
    refine ⟨?_, h⟩
    cases filePath with
    | error e => rfl
    | ok filePath =>
      dsimp only [Except.bind]
      rw [memoryRead_congr h]
  | write arguments =>
    match arguments with
    | .error e => exact ⟨rfl, h⟩
    | .ok (filePath, content) =>
      have hcongr : (memoryWrite m home.parts d filePath content r.slug).2 =
            (memoryWrite m home.parts d' filePath content r.slug).2 ∧ _ := memoryWrite_congr h
      exact ⟨by dsimp only; rw [hcongr.1], hcongr.2⟩

theorem handleRequest_other (hr : r ≠ r') (d : Files) (request : Json) :
    SameMemory (memoryDir home r) d (handleRequest f m home.parts r'.slug d request).1 := by
  unfold handleRequest
  cases parseRequest m r'.slug request with
  | fields _ | raises | read _ => exact .refl _ d
  | write arguments =>
    match arguments with
    | .error e => exact .refl _ d
    | .ok (filePath, content) => exact memoryWrite_other hr d filePath content

theorem serveLine_congr (h : SameMemory (memoryDir home r) d d') (line : Line) :
    (serveLine f m home d r line).2 = (serveLine f m home d' r line).2 ∧
      SameMemory (memoryDir home r) (serveLine f m home d r line).1
        (serveLine f m home d' r line).1 := by
  have hanswer (request : Json) := handleRequest_congr (f := f) (m := m) h request
  have hhandler : (fun (_ : Nat) request ↦ (handleRequest f m home.parts r.slug d request).2) =
      fun _ request ↦ (handleRequest f m home.parts r.slug d' request).2 :=
    funext fun _ ↦ funext fun request ↦ (hanswer request).1
  refine ⟨by unfold serveLine; rw [hhandler], ?_⟩
  unfold serveLine
  cases line with
  | malformed | refused _ => exact h
  | value request =>
    dsimp only
    split
    · exact (hanswer request).2
    · exact h

theorem serveLine_other (hr : r ≠ r') (d : Files) (line : Line) :
    SameMemory (memoryDir home r) d (serveLine f m home d r' line).1 := by
  unfold serveLine
  cases line with
  | malformed | refused _ => exact .refl _ d
  | value request =>
    dsimp only
    split
    · exact handleRequest_other hr d request
    · exact .refl _ d

/-- From states that look alike, the lines of one repository alone lead to the same answers. -/
theorem serveAll_filter (h : SameMemory (memoryDir home r) d d')
    (steps : List (Repository × Line)) :
    (serveAll f m home d steps).2.filter (·.1 = r) =
        (serveAll f m home d' (steps.filter (·.1 = r))).2 ∧
      SameMemory (memoryDir home r) (serveAll f m home d steps).1
        (serveAll f m home d' (steps.filter (·.1 = r))).1 := by
  induction steps generalizing d d' with
  | nil => exact ⟨rfl, h⟩
  | cons step rest ih =>
    obtain ⟨s, line⟩ := step
    by_cases hs : s = r
    · subst hs
      obtain ⟨hwritten, hmemory⟩ := serveLine_congr (f := f) (m := m) h line
      obtain ⟨hanswers, hlast⟩ := ih hmemory
      rw [List.filter_cons_of_pos (by simp), serveAll, serveAll,
        List.filter_cons_of_pos (by simp), hanswers, hwritten]
      exact ⟨rfl, hlast⟩
    · have hmemory := (serveLine_other (f := f) (m := m) (Ne.symm hs) d line).symm.trans h
      rw [List.filter_cons_of_neg (by simpa using hs), serveAll,
        List.filter_cons_of_neg (by simpa using hs)]
      exact ih hmemory

end Servers

/-- However the servers of several repositories are interleaved, each of them answers as it does
alone, and leaves the same memory. -/
theorem memory_isolated (f : Json.FloatText) (m : Messages) (home : Home) (disk : Files)
    (steps : List (Repository × Line)) (r : Repository) :
    (serveAll f m home disk steps).2.filter (·.1 = r) =
        (serveAll f m home disk (steps.filter (·.1 = r))).2 ∧
      Disk.get? (some (serveAll f m home disk steps).1) (memoryDir home r) =
        Disk.get? (some (serveAll f m home disk (steps.filter (·.1 = r))).1) (memoryDir home r) :=
  ⟨(serveAll_filter (.refl _ disk) steps).1, (serveAll_filter (.refl _ disk) steps).2.below⟩

end GithubAgent.Mcp.Memory
