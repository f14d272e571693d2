import GithubAgent.Base.DiskFiles
import GithubAgent.Base.Lists
import GithubAgent.Mcp.MemoryIsolation

/-!
# Notes are kept

What the servers leave behind is the map from paths to texts that their accepted writes build: a
note is read as it was written last, all notes are listed, and nothing else changes.
-/

namespace GithubAgent.Mcp.Memory

open GithubAgent.Base GithubAgent.Shared

variable {home : Home} {r r' : Repository}

/-! ### The list of the files -/

theorem intercalate_cons_of_ne_nil (name : String) {path : List String} (h : path ≠ []) :
    "/".intercalate (name :: path) = name ++ "/" ++ "/".intercalate path := by
  obtain ⟨next, rest, rfl⟩ := List.exists_cons_of_ne_nil h
  apply String.toList_inj.mp
  simp only [String.toList_intercalate, String.toList_append, List.map_cons,
    List.intercalate_cons_cons, List.append_assoc]

theorem nil_notMem_files_dir (children : List (String × Files)) :
    [] ∉ Disk.files (.dir children) := by
  intro h
  obtain ⟨_, _, _, _, heq⟩ := Disk.mem_files_dir.mp h
  cases heq

/-- The entries of a directory are those of its files, with the text in front. -/
theorem listItems_eq {lead : String} {children : List (String × Files)}
    (h : ∀ name below, (name, Disk.dir below) ∈ children → ∀ lead,
      listFiles lead (.dir below) = (Disk.files (.dir below)).map fun p ↦
        lead ++ "/".intercalate p) :
    listItems lead children = (Disk.filesIn children).map fun child ↦
      (child.1, child.2.map fun p ↦ lead ++ "/".intercalate (child.1 :: p)) := by
  induction children with
  | nil => rfl
  | cons child rest ih =>
    have hrest := ih fun name below hmem ↦ h name below (List.mem_cons_of_mem _ hmem)
    match child with
    | (name, .file content) =>
      rw [listItems, hrest]
      rfl
    | (name, .dir below) =>
      rw [listItems, hrest, h name below List.mem_cons_self, Disk.filesIn, List.map_cons]
      congr 2
      refine List.map_congr_left fun p hp ↦ ?_
      have hne : p ≠ [] := fun heq ↦ nil_notMem_files_dir below (heq ▸ hp)
      rw [intercalate_cons_of_ne_nil name hne, String.append_assoc, String.append_assoc,
        String.append_assoc]

/-- `_list_files` lists the paths of all files. -/
theorem listFiles_dir (lead : String) (children : List (String × Files)) :
    listFiles lead (.dir children) =
      (Disk.files (.dir children)).map fun p ↦ lead ++ "/".intercalate p := by
  have hitems : listItems lead children = _ :=
    listItems_eq fun name below hmem lead ↦ listFiles_dir lead below
  have hsort : ((Disk.filesIn children).map fun child ↦
      (child.1, child.2.map fun p ↦ lead ++ "/".intercalate (child.1 :: p))).insertionSort
        (·.1 ≤ ·.1) = ((Disk.filesIn children).insertionSort (·.1 ≤ ·.1)).map fun child ↦
      (child.1, child.2.map fun p ↦ lead ++ "/".intercalate (child.1 :: p)) :=
    (List.map_insertionSort (fun a b : String × List (List String) ↦ a.1 ≤ b.1)
      (fun a b : String × List String ↦ a.1 ≤ b.1) _ _ fun _ _ _ _ ↦ Iff.rfl).symm
  rw [listFiles, hitems, hsort, Disk.files, List.flatMap_map, List.map_flatMap]
  refine List.flatMap_congr fun child _ ↦ ?_
  rw [List.map_map]
  rfl
termination_by sizeOf children
decreasing_by
  have hsize := List.sizeOf_lt_of_mem hmem
  simp only [Prod.mk.sizeOf_spec, Disk.dir.sizeOf_spec] at hsize ⊢
  omega

/-! ### Writing a note -/

section Call

variable {m : Messages} {d : Files} {filePath content : Json}

/-- The path and the text that a call of `memory_write` is about, if it has both. -/
def asked (m : Messages) (home : Home) (r : Repository) (filePath content : Json) :
    Option (List String × String) :=
  match fullPath m (memoryDir home r) filePath, content with
  | .ok path, .str text => some (path, text)
  | _, _ => none

theorem asked_eq_some {path : List String} {text : String}
    (h : asked m home r filePath content = some (path, text)) :
    fullPath m (memoryDir home r) filePath = .ok path := by
  unfold asked at h
  split at h
  · next hfull =>
    cases h
    exact hfull
  · cases h

/-- What a call of `memory_write` has written, if it is successful. -/
def written (m : Messages) (home : Home) (d : Files) (r : Repository) (filePath content : Json) :
    Option (List String × String) :=
  match (memoryWrite m home.parts d filePath content r.slug).2 with
  | .ok _ => asked m home r filePath content
  | .error _ => none

/-- A successful call changes the file that it names, and another one changes no file. -/
theorem fileAt_memoryWrite (q : List String) :
    Disk.fileAt (some (memoryWrite m home.parts d filePath content r.slug).1) q =
      match written m home d r filePath content with
      | some (path, text) => if q = path then some text else Disk.fileAt (some d) q
      | none => Disk.fileAt (some d) q := by
  unfold written asked memoryWrite
  rw [getMemoryDir_slug]
  cases hfull : fullPath m (memoryDir home r) filePath with
  | error e => rfl
  | ok path =>
    dsimp only
    cases hmade : Disk.mkdirs (some d) path.dropLast with
    | error e => rfl
    | ok d₁ =>
      have hparents := Disk.fileAt_mkdirs hmade
      cases content with
      | str text =>
        dsimp only
        cases hwritten : Disk.write text (some d₁) path with
        | error e => exact hparents q
        | ok d₂ =>
          dsimp only
          rw [Disk.fileAt_write hwritten, hparents]
      | _ => exact hparents q

/-- A call is successful when it has a path and a text, no file is in the place of a directory, and
no directory is in the place of the file. -/
theorem written_eq_some_iff {path : List String} {text : String} :
    written m home d r filePath content = some (path, text) ↔
      asked m home r filePath content = some (path, text) ∧
        (∀ q, q <+: path.dropLast → Disk.fileAt (some d) q = none) ∧
          Disk.isDir (some d) path = false := by
  unfold written memoryWrite asked
  rw [getMemoryDir_slug]
  cases hfull : fullPath m (memoryDir home r) filePath with
  | error e => simp
  | ok path' =>
    dsimp only
    cases content with
    | str text' =>
      rw [Option.some.injEq, Prod.mk.injEq]
      cases hmade : Disk.mkdirs (some d) path'.dropLast with
      | error e =>
        dsimp only
        refine iff_of_false (Option.some_ne_none _).symm ?_
        rintro ⟨⟨rfl, -⟩, hfree, -⟩
        obtain ⟨d₁, hd₁⟩ := (Disk.mkdirs_isOk_iff _ _).mpr hfree
        cases hmade.symm.trans hd₁
      | ok d₁ =>
        obtain ⟨note, rfl⟩ := fullPath_eq_ok hfull
        have hne := memoryDir_append_ne_nil home r note
        have hwrite := write_after_mkdirs hne hmade text'
        have hfree := (Disk.mkdirs_isOk_iff _ _).mp ⟨d₁, hmade⟩
        have hdir : Disk.isDir (some d₁) (memoryDir home r ++ note) = true ↔
            Disk.isDir (some d) (memoryDir home r ++ note) = true := by
          rw [Disk.isDir_mkdirs hmade, or_iff_left]
          intro hprefix
          have hlength := hprefix.length_le
          rw [List.length_dropLast] at hlength
          have hpos := List.length_pos_iff.mpr hne
          omega
        dsimp only
        split at hwrite
        · next hd =>
          rw [hwrite]
          refine iff_of_false (Option.some_ne_none _).symm ?_
          rintro ⟨⟨rfl, -⟩, -, hfalse⟩
          rw [hdir.mp hd] at hfalse
          cases hfalse
        · next hd =>
          obtain ⟨d₂, hd₂⟩ := hwrite
          rw [hd₂]
          dsimp only
          rw [Option.some.injEq, Prod.mk.injEq]
          refine ⟨?_, And.left⟩
          rintro ⟨rfl, rfl⟩
          exact ⟨⟨rfl, rfl⟩, hfree, eq_false_of_ne_true (hd ∘ hdir.mpr)⟩
    | _ => cases Disk.mkdirs (some d) path'.dropLast <;> simp

end Call

/-! ### Names -/

section Names

variable {m : Messages} {d : Files} {filePath content : Json}

theorem mem_joinPath {base : List String} {segment part : String}
    (h : part ∈ joinPath base segment) :
    part ∈ base ∨ part ≠ "" ∧ part ≠ "." ∧ part.toList ∈ segment.toList.splitOn '/' := by
  by_cases hhead : segment.toList.head? = some '/'
  · have hsame : joinPath base segment = joinPath [] segment := by
      simp only [joinPath, if_pos hhead]
    obtain ⟨hmem, hempty, hdot⟩ := mem_joinPath_nil.mp (hsame ▸ h)
    exact .inr ⟨hempty, hdot, hmem⟩
  · rw [joinPath_of_relative base hhead] at h
    rcases List.mem_append.mp h with h | h
    · exact .inl h
    · obtain ⟨hmem, hempty, hdot⟩ := mem_joinPath_nil.mp h
      exact .inr ⟨hempty, hdot, hmem⟩

theorem mem_resolve {path : List String} {part : String} (h : part ∈ resolve path) :
    part ∈ path ∧ part ≠ ".." := by
  have hfold (path done : List String) (h : part ∈ path.foldl
      (fun done part ↦ if part = ".." then done.dropLast else done ++ [part]) done) :
      part ∈ done ∨ part ∈ path := by
    induction path generalizing done with
    | nil => exact .inl h
    | cons x rest ih =>
      rw [List.foldl_cons] at h
      rcases ih _ h with hdone | hrest
      · split at hdone
        · exact .inl (List.mem_of_mem_dropLast hdone)
        · rcases List.mem_append.mp hdone with hdone | hx
          · exact .inl hdone
          · exact .inr (List.mem_singleton.mp hx ▸ List.mem_cons_self)
      · exact .inr (List.mem_cons_of_mem _ hrest)
  refine ⟨(hfold path [] h).resolve_left List.not_mem_nil, fun hpart ↦ ?_⟩
  exact dotdot_notMem_resolve path (hpart ▸ h)

theorem isName_memoryDir {part : String} (h : part ∈ memoryDir home r) : IsName part := by
  rcases List.mem_append.mp h with h | h
  · exact home.plain _ h
  · simp only [List.mem_cons, List.not_mem_nil, or_false] at h
    rcases h with rfl | rfl | rfl | rfl | rfl
    · decide
    · decide
    · exact r.owner_valid
    · exact r.name_valid
    · decide

/-- The path of a note is made of names. -/
theorem isName_fullPath {path : List String} (h : fullPath m (memoryDir home r) filePath = .ok path)
    {part : String} (hpart : part ∈ path) : IsName part := by
  unfold fullPath at h
  split at h
  · next text =>
    split at h
    · cases h
    · next hnull =>
      obtain ⟨_, _, rfl⟩ := Disk.map_eq_ok h
      obtain ⟨hjoined, hdots⟩ := mem_resolve hpart
      rcases mem_joinPath hjoined with hbase | ⟨hempty, hdot, hmem⟩
      · exact isName_memoryDir hbase
      · exact ⟨hempty, hdot, hdots, notMem_of_mem_splitOn hmem,
          fun hzero ↦ hnull (mem_of_mem_splitOn hmem hzero)⟩
  · cases h

theorem named_memoryWrite (h : Disk.Named IsName (some d)) :
    Disk.Named IsName (some (memoryWrite m home.parts d filePath content r.slug).1) := by
  unfold memoryWrite
  rw [getMemoryDir_slug]
  cases hfull : fullPath m (memoryDir home r) filePath with
  | error e => exact h
  | ok path =>
    have hnames (part : String) (hpart : part ∈ path) : IsName part := isName_fullPath hfull hpart
    dsimp only
    cases hmade : Disk.mkdirs (some d) path.dropLast with
    | error e => exact h
    | ok d₁ =>
      have h₁ := h.mkdirs (fun part hpart ↦ hnames part (List.mem_of_mem_dropLast hpart)) hmade
      cases content with
      | str text =>
        dsimp only
        cases hwritten : Disk.write text (some d₁) path with
        | error e => exact h₁
        | ok d₂ => exact h₁.write hnames hwritten
      | _ => exact h₁

/-- The text of a path of names is read as the path. -/
theorem fullPath_intercalate {note : List String} (hne : note ≠ [])
    (hnames : ∀ part ∈ note, IsName part) :
    fullPath m (memoryDir home r) (.str ("/".intercalate note)) = .ok (memoryDir home r ++ note) := by
  have hnull : '\x00' ∉ ("/".intercalate note).toList := by
    rw [String.toList_intercalate]
    intro hmem
    have hcount := List.count_pos_iff.mpr hmem
    rw [show "/".toList = ['/'] from rfl, count_intercalate_of_ne (by decide)] at hcount
    obtain ⟨part, hpart, hzero⟩ := List.mem_flatten.mp (List.count_pos_iff.mp hcount)
    obtain ⟨name, hname, rfl⟩ := List.mem_map.mp hpart
    exact (hnames name hname).2.2.2.2 hzero
  have hdots : ".." ∉ memoryDir home r ++ note := by
    intro hmem
    rcases List.mem_append.mp hmem with hmem | hmem
    · exact dotdot_notMem_memoryDir home r hmem
    · exact (hnames _ hmem).2.2.1 rfl
  have hprefix : (memoryDir home r).isPrefixOf (memoryDir home r ++ note) = true :=
    List.isPrefixOf_iff_prefix.mpr (List.prefix_append _ _)
  unfold fullPath validatePath
  dsimp only
  rw [joinPath_intercalate _ hne fun part hpart ↦ (hnames part hpart).of_joinPath,
    if_neg hnull, resolve_of_plain hdots, resolve_of_plain hdots, resolve_memoryDir,
    if_pos hprefix]
  rfl

end Names

/-! ### Runs -/

section Runs

variable (f : Json.FloatText) (m : Messages) (home : Home)

/-- What a server writes to a file when it reads a line. -/
def lineWrite (d : Files) (r : Repository) : Line → Option (List String × String)
  | .value request =>
    if hasId request = some true then
      match parseRequest m r.slug request with
      | .write (.ok (filePath, content)) => written m home d r filePath content
      | _ => none
    else none
  | _ => none

/-- What the servers write to files in a run, in order. -/
def writes : Files → List (Repository × Line) → List (List String × String)
  | _, [] => []
  | d, (r, line) :: rest =>
    (lineWrite m home d r line).toList ++ writes (serveLine f m home d r line).1 rest

variable {f m home} {d : Files}

theorem fileAt_serveLine (line : Line) (q : List String) :
    Disk.fileAt (some (serveLine f m home d r line).1) q =
      (dictGet (lineWrite m home d r line).toList q).or (Disk.fileAt (some d) q) := by
  unfold serveLine lineWrite
  cases line with
  | malformed | refused _ => rfl
  | value request =>
    dsimp only
    split
    · unfold handleRequest
      cases parseRequest m r.slug request with
      | fields _ | raises | read _ => rfl
      | write arguments =>
        cases arguments with
        | error e => rfl
        | ok pair =>
          obtain ⟨filePath, content⟩ := pair
          dsimp only
          rw [fileAt_memoryWrite]
          cases written m home d r filePath content with
          | none => rfl
          | some pair =>
            rw [Option.toList_some, dictGet_cons]
            by_cases hq : q = pair.1
            · simp [hq, dictGet]
            · simp [hq, dictGet]
    · rfl

/-- The files after a run are those before it, updated by what was written. -/
theorem fileAt_serveAll (steps : List (Repository × Line)) (q : List String) :
    Disk.fileAt (some (serveAll f m home d steps).1) q =
      (dictGet (writes f m home d steps) q).or (Disk.fileAt (some d) q) := by
  induction steps generalizing d with
  | nil => rfl
  | cons step rest ih =>
    obtain ⟨r, line⟩ := step
    rw [serveAll, writes, ih, fileAt_serveLine, dictGet_append, Option.or_assoc]

theorem lineWrite_below {line : Line} {pair : List String × String}
    (h : lineWrite m home d r line = some pair) : memoryDir home r <+: pair.1 := by
  unfold lineWrite at h
  split at h
  · split at h
    · split at h
      · obtain ⟨path, text⟩ := pair
        obtain ⟨note, rfl⟩ := fullPath_eq_ok (asked_eq_some (written_eq_some_iff.mp h).1)
        exact List.prefix_append _ _
      · cases h
    · cases h
  · cases h

/-- A server writes below the directory of its repository only. -/
theorem writes_below {steps : List (Repository × Line)} {pair : List String × String}
    (h : pair ∈ writes f m home d steps) : ∃ step ∈ steps, memoryDir home step.1 <+: pair.1 := by
  induction steps generalizing d with
  | nil => cases h
  | cons step rest ih =>
    obtain ⟨r, line⟩ := step
    rcases List.mem_append.mp h with h | h
    · exact ⟨(r, line), List.mem_cons_self, lineWrite_below (Option.mem_toList.mp h)⟩
    · obtain ⟨step, hstep, hbelow⟩ := ih h
      exact ⟨step, List.mem_cons_of_mem _ hstep, hbelow⟩

theorem named_serveAll (h : Disk.Named IsName (some d)) (steps : List (Repository × Line)) :
    Disk.Named IsName (some (serveAll f m home d steps).1) := by
  induction steps generalizing d with
  | nil => exact h
  | cons step rest ih =>
    obtain ⟨r, line⟩ := step
    refine ih ?_
    unfold serveLine
    cases line with
    | malformed | refused _ => exact h
    | value request =>
      dsimp only
      split
      · unfold handleRequest
        cases parseRequest m r.slug request with
        | fields _ | raises | read _ => exact h
        | write arguments =>
          cases arguments with
          | error e => exact h
          | ok pair => exact named_memoryWrite h
      · exact h

end Runs

/-! ### What is shown -/

/-- A text is shown as it was written when it has no carriage return and is not too long. -/
theorem shownContent_eq_iff (content : String) :
    shownContent content = .obj [("content", .str content), ("truncated", .bool false),
      ("total_size", .int content.toList.length)] ↔
      '\r' ∉ content.toList ∧ content.toList.length ≤ maxChars := by
  unfold shownContent
  dsimp only
  constructor
  · intro h
    simp only [Json.obj.injEq, List.cons.injEq, Prod.mk.injEq, Json.str.injEq, Json.bool.injEq,
      decide_eq_false_iff_not, true_and, and_true] at h
    obtain ⟨htext, hshort, -⟩ := h
    rw [if_neg hshort, ← String.toList_inj, String.toList_ofList] at htext
    rw [htext] at hshort
    exact ⟨htext ▸ cr_notMem_universalNewlines _, Nat.le_of_not_lt hshort⟩
  · rintro ⟨hcr, hshort⟩
    rw [universalNewlines_of_notMem hcr, if_neg hshort.not_gt, String.ofList_toList,
      decide_eq_false hshort.not_gt]

/-! ### Notes after a run -/

section Kept

variable (f : Json.FloatText) (m : Messages) (home : Home) (d : Files)
  (steps : List (Repository × Line))

/-- The text of a file after a run: the one that was written last, or that of before. -/
def noteText (path : List String) : Option String :=
  (dictGet (writes f m home d steps) path).or (Disk.fileAt (some d) path)

/-- After a run, a note is shown with the text that was written last, a note that was not written
and was not there is an error, and no file has changed outside the memories of the run. -/
structure KeepsNotes : Prop where
  shows : ∀ (r : Repository) (filePath : String) path content,
    fullPath m (memoryDir home r) (.str filePath) = .ok path →
      noteText f m home d steps path = some content →
        memoryRead m home.parts (serveAll f m home d steps).1 (.str filePath) r.slug =
          .ok (shownContent content)
  misses : ∀ (r : Repository) (filePath : String) path,
    fullPath m (memoryDir home r) (.str filePath) = .ok path →
      noteText f m home d steps path = none →
        ∃ e, memoryRead m home.parts (serveAll f m home d steps).1 (.str filePath) r.slug =
          .error e
  confined : ∀ path, (∀ step ∈ steps, ¬ memoryDir home step.1 <+: path) →
    Disk.fileAt (some (serveAll f m home d steps).1) path = Disk.fileAt (some d) path

/-- The list of the notes after a run has each of them once, in order, and each can be read. -/
def ListsNotes (r : Repository) : Prop :=
  ∃ notes : List (List String),
    memoryRead m home.parts (serveAll f m home d steps).1 .null r.slug =
      .ok (.obj [("files", .arr (notes.map fun note ↦ .str ("/".intercalate note)))]) ∧
    notes.Pairwise (· < ·) ∧
    (∀ note, note ∈ notes ↔
      note ≠ [] ∧ (noteText f m home d steps (memoryDir home r ++ note)).isSome = true) ∧
    ∀ note ∈ notes, ∃ content,
      memoryRead m home.parts (serveAll f m home d steps).1 (.str ("/".intercalate note)) r.slug =
        .ok (shownContent content)

variable {f m home d steps}

/-- What a call of `memory_read` for one file answers. -/
theorem memoryRead_eq {e : Files} {filePath : String} {path : List String}
    (h : fullPath m (memoryDir home r) (.str filePath) = .ok path) :
    (∀ content, Disk.fileAt (some e) path = some content →
      memoryRead m home.parts e (.str filePath) r.slug = .ok (shownContent content)) ∧
    (Disk.fileAt (some e) path = none →
      ∃ error, memoryRead m home.parts e (.str filePath) r.slug = .error error) := by
  unfold memoryRead readFile Disk.fileAt
  rw [getMemoryDir_slug]
  dsimp only
  rw [h]
  dsimp only [Except.bind]
  cases Disk.get? (some e) path with
  | none => exact ⟨nofun, fun _ ↦ ⟨_, rfl⟩⟩
  | some t =>
    cases t with
    | file text => exact ⟨fun content htext ↦ by rw [Option.some.inj htext], nofun⟩
    | dir children => exact ⟨nofun, fun _ ↦ ⟨_, rfl⟩⟩

end Kept

/-- Whatever the servers read, the notes are kept. -/
theorem keepsNotes (f : Json.FloatText) (m : Messages) (home : Home) (d : Files)
    (steps : List (Repository × Line)) : KeepsNotes f m home d steps where
  shows := fun _ _ path content hfull hnote ↦
    (memoryRead_eq hfull).1 content ((fileAt_serveAll steps path).trans hnote)
  misses := fun _ _ path hfull hnote ↦
    (memoryRead_eq hfull).2 ((fileAt_serveAll steps path).trans hnote)
  confined := by
    intro path hout
    rw [fileAt_serveAll, dictGet_of_forall_ne, Option.none_or]
    rintro pair hpair rfl
    obtain ⟨step, hstep, hbelow⟩ := writes_below hpair
    exact hout step hstep hbelow

/-- Where the names in each directory are distinct, all notes are listed. -/
theorem listsNotes (f : Json.FloatText) (m : Messages) (home : Home) {d : Files}
    (hd : Disk.Named IsName (some d)) (steps : List (Repository × Line)) (r : Repository) :
    ListsNotes f m home d steps r := by
  have hserved : Disk.Named IsName (some (serveAll f m home d steps).1) := named_serveAll hd steps
  have hnamed := hserved.get? (memoryDir home r)
  have hfile (note : List String) : noteText f m home d steps (memoryDir home r ++ note) =
      Disk.fileAt (Disk.get? (some (serveAll f m home d steps).1) (memoryDir home r)) note := by
    rw [noteText, ← fileAt_serveAll, Disk.fileAt_append]
  have hlisted : memoryRead m home.parts (serveAll f m home d steps).1 .null r.slug =
      .ok (listedFiles (serveAll f m home d steps).1 (memoryDir home r)) := by
    rw [memoryRead, getMemoryDir_slug]
  unfold ListsNotes
  rw [hlisted]
  unfold listedFiles
  rw [resolve_memoryDir]
  revert hnamed hfile
  generalize Disk.get? (some (serveAll f m home d steps).1) (memoryDir home r) = t
  intro hnamed hfile
  match t with
  | none =>
    refine ⟨[], rfl, .nil, fun note ↦ iff_of_false List.not_mem_nil ?_, nofun⟩
    rw [hfile, Disk.fileAt_none]
    rintro ⟨_, hsome⟩
    cases hsome
  | some (.file content) =>
    refine ⟨[], rfl, .nil, fun note ↦ iff_of_false List.not_mem_nil ?_, nofun⟩
    rw [hfile]
    rintro ⟨hne, hsome⟩
    obtain ⟨name, rest, rfl⟩ := List.exists_cons_of_ne_nil hne
    cases hsome
  | some (.dir children) =>
    have hmem (note : List String) : note ∈ Disk.files (.dir children) ↔
        (noteText f m home d steps (memoryDir home r ++ note)).isSome = true := by
      rw [hfile, Disk.mem_files_iff hnamed]
    have hne {note : List String} (hnote : note ∈ Disk.files (.dir children)) : note ≠ [] :=
      fun heq ↦ nil_notMem_files_dir children (heq ▸ hnote)
    refine ⟨Disk.files (.dir children), ?_, Disk.pairwise_files hnamed, fun note ↦
      ⟨fun hnote ↦ ⟨hne hnote, (hmem note).mp hnote⟩, fun hnote ↦ (hmem note).mpr hnote.2⟩,
      fun note hnote ↦ ?_⟩
    · dsimp only
      rw [listFiles_dir, List.map_map]
      simp only [Function.comp_def, String.empty_append]
    · have hsome := (hmem note).mp hnote
      obtain ⟨content, hcontent⟩ := Option.isSome_iff_exists.mp hsome
      have hnames {name : String} (hname : name ∈ note) : IsName name :=
        hnamed.of_fileAt (hfile note ▸ hsome) hname
      exact ⟨content, (keepsNotes f m home d steps).shows r _ _ content
        (fullPath_intercalate (hne hnote) fun _ hname ↦ hnames hname) hcontent⟩

/-- On a machine without files, all notes are listed. -/
theorem listsNotes_empty :
    ListsNotes ⟨fun _ ↦ [], fun _ ↦ List.forall_mem_nil _⟩
      ⟨fun _ ↦ "", "", fun _ _ ↦ "", fun _ ↦ "", fun _ ↦ "", fun _ ↦ ""⟩
      ⟨["root"], List.forall_mem_singleton.mpr (by decide)⟩ (.dir [])
      [(⟨"owner", "repo", by decide, by decide⟩, .value (.obj [("id", .int 1),
        ("method", .str "tools/call"), ("params", .obj [("name", .str "memory_write"),
          ("arguments", .obj [("file_path", .str "a/b.md"), ("content", .str "text")])])]))]
      ⟨"owner", "repo", by decide, by decide⟩ :=
  listsNotes _ _ _ Disk.named_empty _ _

end GithubAgent.Mcp.Memory
