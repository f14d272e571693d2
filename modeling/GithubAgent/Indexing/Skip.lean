import GithubAgent.Base.Transition
import GithubAgent.Indexing.CallParts

/-!
# When a skipped build is sound

A build is skipped when some row of `_schema_meta` has its commit. The row says nothing of the
repository, it is written whether or not the statements before it have failed, and it stays while
a later call clears the tables. The condition below says of one call when its mark is true and no
older mark becomes false; in a run of such calls a skipped build misses nothing.
-/

namespace GithubAgent.Indexing

open GithubAgent.Base Database

namespace Call

variable (x : Extraction) (checkout : String → Tree) (c : Call)

/-- The files of the worktree. -/
def tree : Tree := c.head.tree checkout

/-- The tags that the call stores. -/
def tags : List Tag :=
  match c.kind with
  | .inl options => options.preExtractedTags.getD (x.extractTags (c.tree checkout) none)
  | .inr changedFiles => x.extractTags (c.tree checkout) (some changedFiles)

/-- The relationships that it stores. -/
def relationships : List Relationship :=
  match c.kind with
  | .inl options =>
    options.preExtractedRelationships.getD (x.extractRelationships (c.tree checkout) none)
  | .inr changedFiles => x.extractRelationships (c.tree checkout) (some changedFiles)

/-- The records that it writes. -/
def records : List (String × Row) := tagRows x.digest c.repo (c.tags x checkout)

/-- What the clearing should leave of a store. -/
def base (v : Store) : Store :=
  match c.kind with
  | .inl _ => .empty
  | .inr changedFiles => v.clearRepoFiles changedFiles

/-- The call asks whether its commit is indexed. -/
def Asks : Prop :=
  match c.kind with
  | .inl options =>
    (options.force = false ∧ options.preExtractedTags.getD [] = []) ∧
      ¬ (c.head.hash = "" ∨ c.repo = "")
  | .inr _ => False

/-- The build takes the shortcut: it finds a row with its commit. -/
def Skips (faults : Faults) (db : Database) : Prop :=
  c.Asks ∧ faults .lookup = .done ∧ db.hasCommit c.head.hash = true

/-- A deletion of symbols fails only where there are none. -/
def Clears (faults : Faults) (v : Store) : Prop :=
  match c.kind with
  | .inl _ => faults .clearSymbols = .failed → v.symbols = .empty
  | .inr changedFiles => ClearsFiles faults v changedFiles

end Call

/-- What a full build of a tree stores. -/
def graph (x : Extraction) (repo : String) (tree : Tree) : Store :=
  ⟨tagTable x repo tree, treeEdges x repo tree, [], []⟩

/-- An extraction of tags and relationships only. -/
def Extraction.graphOnly (x : Extraction) : Extraction :=
  { x with
    fileChunks := fun _ _ ↦ []
    routes := fun _ ↦ []
    tools := fun _ ↦ []
    filepath_chunks := fun _ _ _ h ↦ nomatch h }

section Condition

variable (x : Extraction) (checkout : String → Tree)

/-- What the call extracts, on top of what it leaves, is the graph of its tree: tags and
relationships that a build is given are those of the tree, and an incremental build leads there
from the graph of another tree. -/
def Fits (c : Call) (v : Store) : Prop :=
  match c.kind with
  | .inl _ =>
    stored x c.repo .empty (c.tags x checkout) (c.relationships x checkout) =
      graph x c.repo (c.tree checkout)
  | .inr changedFiles =>
    ∃ old, v = graph x c.repo old ∧
      KeepsUp x.graphOnly c.repo old (c.tree checkout) changedFiles []

/-- A call that is to be trusted when it has set its mark: no statement fails whose effect is
missed. -/
structure Complete (c : Call) (faults : Faults) (v : Store) : Prop where
  clears : c.Clears faults v
  stores : Stores x faults c.repo (c.base v) (c.tags x checkout) (c.relationships x checkout)
  fits : Fits x checkout c v

/-- No row is a mark of the repository. -/
def Unmarked (db : Database) (repo : String) : Prop :=
  ∀ id m, db.commits.get id = some m → m.repo ≠ repo

/-- The call has no effect: it has nothing to delete and nothing to store, or is cut off before
its first statement. -/
def Idle (c : Call) (faults : Faults) (db : Database) : Prop :=
  match c.kind with
  | .inl _ =>
    ((db.view c.repo).symbols = .empty ∧ c.tags x checkout = []) ∨
      faults (.clearEdges .calls) = .cut ∨ (c.Asks ∧ faults .lookup = .cut)
  | .inr changedFiles =>
    ((∀ id row, (db.view c.repo).symbols.get id = some row → row.filepath ∉ changedFiles) ∧
        c.tags x checkout = []) ∨
      faults (.clearFileEdges 0 .calls) = .cut

/-- The condition on a call. A skipped build finds the mark of its own repository. Any other call
writes no symbol id of another repository; if it sets its mark, it is complete, and otherwise the
repository has no mark, or the call no effect. -/
def Reliable (db : Database) (c : Call) (faults : Faults) : Prop :=
  (c.Skips faults db → db.commits.get (recordId c.repo) = some ⟨c.repo, c.head⟩) ∧
    (¬ c.Skips faults db → db.Own c.repo (c.records x checkout) ∧
      if (c.run x checkout faults db).1 ≠ none ∧ Marks faults c.repo c.head (c.tags x checkout) then
        Complete x checkout c faults (db.view c.repo)
      else Unmarked db c.repo ∨ Idle x checkout c faults db)

end Condition

/-! ### The system -/

/-- A skipped build, with what was stored of the repository. -/
structure Skipped where
  repo : String
  head : Head
  held : Store

/-- The database, and the builds that were skipped. -/
structure Served where
  database : Database
  skipped : List Skipped

section System

variable (x : Extraction) (checkout : String → Tree)

/-- Calls one after the other, on any repositories, with any faults. -/
def serving : System Served (Call × Faults) where
  init s := s = ⟨.empty, []⟩
  step s call :=
    let result := call.1.run x checkout call.2 s.database
    some ⟨result.2,
      if result.1 = some true then
        ⟨call.1.repo, call.1.head, s.database.view call.1.repo⟩ :: s.skipped
      else s.skipped⟩

/-- What an uninterrupted full build stores. -/
def uninterrupted (repo : String) (head : Head) : Store :=
  (buildCall x checkout .none repo head {} .empty).2.view repo

/-- Whenever a build was skipped, exactly that was stored of its repository. -/
def SkipsSound (s : Served) : Prop :=
  ∀ k ∈ s.skipped, k.held = uninterrupted x checkout k.repo k.head

end System

/-! ### Whole calls -/

section Run

open Coroutine

variable {x : Extraction} {checkout : String → Tree} {c : Call} {faults : Faults}
  {start : Database}

/-- The end of a call that was not skipped: what it leaves before its mark, and the mark. -/
def Ended (x : Extraction) (checkout : String → Tree) (c : Call) (faults : Faults)
    (start db : Database) : Prop :=
  ∃ done, Framed start c.repo (c.records x checkout) done ∧
    (c.Clears faults (start.view c.repo) ∧
        (c.tags x checkout ≠ [] → Stores x faults c.repo (c.base (start.view c.repo))
          (c.tags x checkout) (c.relationships x checkout)) →
      done.view c.repo = stored x c.repo (c.base (start.view c.repo)) (c.tags x checkout)
        (c.relationships x checkout)) ∧
    db = if Marks faults c.repo c.head (c.tags x checkout) then done.mark ⟨c.repo, c.head⟩
      else done

/-- At the start nothing has changed. -/
theorem framed_start (hclosed : start.Closed) (hown : start.Own c.repo (c.records x checkout)) :
    Framed start c.repo (c.records x checkout) start :=
  ⟨hclosed, hown, fun _ _ ↦ rfl, rfl⟩

/-- The question whether the commit is indexed. -/
theorem spec_isCommitMarked {options : BuildOptions} (hkind : c.kind = .inl options) :
    Spec (· = start)
      (if options.force = false ∧ options.preExtractedTags.getD [] = [] then
        isCommitMarked faults c.repo c.head else pure false)
      (fun indexed db ↦ db = start ∧ (indexed = true → c.Skips faults start) ∧
        (c.Asks → faults .lookup ≠ .cut))
      (fun db ↦ db = start ∧ ∃ place, faults place = .cut) := by
  have hask : c.Asks ↔ (options.force = false ∧ options.preExtractedTags.getD [] = []) ∧
      ¬ (c.head.hash = "" ∨ c.repo = "") := by
    unfold Call.Asks
    rw [hkind]
  refine .ite (fun hasks ↦ ?_) fun hasks ↦ .pure fun db h ↦
    ⟨h, fun h ↦ (nomatch h), fun h ↦ absurd (hask.mp h).1 hasks⟩
  refine .ite (fun hnamed ↦ .pure fun db h ↦
    ⟨h, fun h ↦ (nomatch h), fun h ↦ absurd hnamed (hask.mp h).2⟩) fun hnamed ↦ ?_
  refine .bind (Q := fun found db ↦ db = start ∧ (found.getD false = true → c.Skips faults start) ∧
    (c.Asks → faults .lookup ≠ .cut)) (.query ?_ ?_ ?_) fun found ↦ .pure fun _ h ↦ h
  · rintro hdone _ rfl
    exact ⟨rfl, fun hfound ↦ ⟨hask.mpr ⟨hasks, hnamed⟩, hdone, hfound⟩, fun _ hcut ↦
      absurd (hdone.symm.trans hcut) (by decide)⟩
  · rintro hf _ rfl
    exact ⟨rfl, fun hfound ↦ (nomatch hfound), fun _ hcut ↦
      absurd (hf.symm.trans hcut) (by decide)⟩
  · rintro hcut _ rfl
    exact ⟨rfl, _, hcut⟩

/-- What follows the clearing. -/
theorem spec_clear_store {clear : Coroutine Database Unit}
    (hclear : Spec (· = start) clear
      (fun _ db ↦ Framed start c.repo (c.records x checkout) db ∧
        (c.Clears faults (start.view c.repo) → db.view c.repo = c.base (start.view c.repo)))
      (CutOff faults start c.repo (c.records x checkout))) :
    Spec (· = start)
      (clear >>= fun _ ↦
        store x faults c.repo c.head (c.tags x checkout) (c.relationships x checkout) >>= fun _ ↦
        pure false)
      (fun skipped db ↦ if skipped then db = start ∧ c.Skips faults start
        else Ended x checkout c faults start db)
      (CutOff faults start c.repo (c.records x checkout)) := by
  refine .bind hclear fun _ ↦ .bind (spec_store _ _ rfl) fun _ ↦ .pure fun db h ↦ ?_
  rw [if_neg Bool.false_ne_true]
  exact h

/-- Without changed files there are no tags. -/
theorem extractTags_nil (x : Extraction) (tree : Tree) : x.extractTags tree (some []) = [] := by
  simp [Extraction.extractTags, Extraction.selected]

/-- A call is skipped, or ends, or is cut off. -/
theorem spec_run (hclosed : start.Closed) (hown : start.Own c.repo (c.records x checkout)) :
    Spec (· = start) (c.run x checkout faults)
      (fun skipped db ↦ if skipped then db = start ∧ c.Skips faults start
        else Ended x checkout c faults start db)
      (CutOff faults start c.repo (c.records x checkout)) := by
  have hframed := framed_start hclosed hown
  cases hkind : c.kind with
  | inl options =>
    have hclear : Spec (· = start) (clearRepoData faults c.repo)
        (fun _ db ↦ Framed start c.repo (c.records x checkout) db ∧
          (c.Clears faults (start.view c.repo) → db.view c.repo = c.base (start.view c.repo)))
        (CutOff faults start c.repo (c.records x checkout)) := by
      simp only [Call.Clears, Call.base, hkind]
      exact .mono spec_clearRepoData (fun db h ↦ by rw [h]; exact ⟨hframed, rfl⟩) fun _ _ h ↦ h
    have hstore := spec_clear_store hclear
    simp only [Call.tags, Call.relationships, Call.tree, hkind] at hstore
    unfold Call.run
    simp only [hkind]
    refine .bind ((spec_isCommitMarked hkind).mono_cut ?_) fun indexed ↦
      .ite (fun hindexed ↦ .pure fun db h ↦ ?_) fun _ ↦ .mono hstore (fun db h ↦ h.1) fun _ _ h ↦ h
    · rintro _ ⟨rfl, hcut⟩
      exact ⟨hframed, hcut⟩
    · rw [if_pos rfl]
      exact ⟨h.1, h.2.1 hindexed⟩
  | inr changedFiles =>
    have hclear : Spec (· = start) (clearRepoFiles faults c.repo changedFiles)
        (fun _ db ↦ Framed start c.repo (c.records x checkout) db ∧
          (c.Clears faults (start.view c.repo) → db.view c.repo = c.base (start.view c.repo)))
        (CutOff faults start c.repo (c.records x checkout)) := by
      simp only [Call.Clears, Call.base, hkind]
      exact .mono (spec_clearRepoFiles (v := start.view c.repo) changedFiles)
        (fun db h ↦ by rw [h]; exact ⟨hframed, rfl⟩) fun _ _ h ↦ h
    have hstore := spec_clear_store hclear
    simp only [Call.tags, Call.relationships, Call.tree, hkind] at hstore
    unfold Call.run
    simp only [hkind]
    refine .ite (fun hnil ↦ .pure ?_) fun _ ↦ hstore
    rintro _ rfl
    rw [if_neg Bool.false_ne_true]
    have htags : c.tags x checkout = [] := by
      simp only [Call.tags, hkind, hnil, extractTags_nil]
    refine ⟨_, hframed, fun _ ↦ ?_, (if_neg fun h ↦ h.1 htags).symm⟩
    simp only [stored, htags, if_true, Call.base, hkind, hnil]
    rfl

/-- A skipped build changes nothing. -/
theorem run_of_skips (h : c.Skips faults start) :
    c.run x checkout faults start = (some true, start) := by
  obtain ⟨hasks, hdone, hfound⟩ := h
  unfold Call.Asks at hasks
  cases hkind : c.kind with
  | inl options =>
    rw [hkind] at hasks
    have hasked : isCommitMarked faults c.repo c.head start = (some true, start) := by
      rw [isCommitMarked, if_neg hasks.2, bind_apply]
      simp only [query, hdone, hfound]
      rfl
    unfold Call.run
    simp only [hkind]
    rw [buildCall, if_pos hasks.1, bind_of_some hasked]
    rfl
  | inr changedFiles =>
    rw [hkind] at hasks
    exact hasks.elim

/-- Clearing a repository of which nothing is stored, or not even that. -/
theorem spec_clearRepoData_idle (hclosed : start.Closed)
    (h : (start.view c.repo).symbols = .empty ∧ c.tags x checkout = [] ∨
      faults (.clearEdges .calls) = .cut) :
    Spec (· = start) (clearRepoData faults c.repo)
      (fun _ db ↦ db = start ∧ c.tags x checkout = []) (· = start) := by
  rcases h with ⟨hempty, htags⟩ | hcut
  · refine .bind (Spec.each (I := fun _ db ↦ db = start) (l := []) ?_) fun _ ↦ .logged ?_ ?_ ?_
    · intro before kind after _
      refine .logged ?_ (fun _ _ h ↦ h) fun _ _ h ↦ h
      rintro - _ rfl
      exact deleteEdges_eq_self hempty kind
    · rintro - _ rfl
      refine ⟨deleteSymbols_eq_self hclosed fun id row hrow ↦ ?_, htags⟩
      by_contra hgone
      have hrepo : row.repo = c.repo := by simpa using hgone
      have hnone := congrArg (·.get id) hempty
      simp [get_view, hrow, Option.filter, hrepo] at hnone
    · exact fun _ _ h ↦ ⟨h, htags⟩
    · exact fun _ _ h ↦ h
  · exact .bind_cut (.bind_cut (.logged_cut hcut))

/-- The same for the changed files. -/
theorem spec_clearRepoFiles_idle (hclosed : start.Closed) {changedFiles : List String}
    (hne : changedFiles ≠ [])
    (h : (∀ id row, (start.view c.repo).symbols.get id = some row →
        row.filepath ∉ changedFiles) ∧ c.tags x checkout = [] ∨
      faults (.clearFileEdges 0 .calls) = .cut) :
    Spec (· = start) (clearRepoFiles faults c.repo changedFiles)
      (fun _ db ↦ db = start ∧ c.tags x checkout = []) (· = start) := by
  rcases h with ⟨hrows, htags⟩ | hcut
  · refine .mono (Spec.each (I := fun _ db ↦ db = start) (l := []) ?_) (fun _ h ↦ h)
      fun _ _ h ↦ ⟨h, htags⟩
    intro before filepath after hsplit
    have hfile : filepath ∈ changedFiles := by
      rw [← List.nil_append changedFiles, hsplit]
      simp
    have hnone (id : String) (row : Row) (hrow : (start.view c.repo).symbols.get id = some row) :
        row.filepath ≠ filepath := fun heq ↦ hrows id row hrow (heq ▸ hfile)
    refine .bind (Spec.each (I := fun _ db ↦ db = start) (l := []) ?_) fun _ ↦ .logged ?_ ?_ ?_
    · intro _ kind _ _
      refine .logged ?_ (fun _ _ h ↦ h) fun _ _ h ↦ h
      rintro - _ rfl
      exact deleteFileEdges_eq_self hnone kind
    · rintro - _ rfl
      refine deleteSymbols_eq_self hclosed fun id row hrow ↦ ?_
      by_contra hgone
      have hgone : row.filepath = filepath ∧ row.repo = c.repo := by simpa using hgone
      exact hnone id row (by simp [get_view, hrow, Option.filter, hgone.2]) hgone.1
    · exact fun _ _ h ↦ h
    · exact fun _ _ h ↦ h
  · obtain ⟨filepath, rest, rfl⟩ := List.exists_cons_of_ne_nil hne
    exact .bind_cut (.bind_cut (.bind_cut (.logged_cut hcut)))

/-- Nothing is stored when there are no tags. -/
theorem spec_store_nil {relationships : List Relationship} :
    Spec (fun db ↦ db = start ∧ c.tags x checkout = [])
      (store x faults c.repo c.head (c.tags x checkout) relationships >>= fun _ ↦ pure false)
      (fun _ db ↦ db = start) (· = start) := by
  rintro _ ⟨rfl, htags⟩
  rw [store, if_pos htags]
  rfl

/-- A call without an effect. -/
theorem run_of_idle (hclosed : start.Closed) (h : Idle x checkout c faults start) :
    (c.run x checkout faults start).2 = start := by
  apply Spec.state_eq
  have hstore := @spec_store_nil x checkout c faults start (c.relationships x checkout)
  unfold Idle at h
  cases hkind : c.kind with
  | inl options =>
    simp only [hkind] at h
    simp only [Call.tags, Call.relationships, Call.tree, hkind] at hstore
    unfold Call.run
    simp only [hkind]
    refine .bind ((spec_isCommitMarked hkind).mono_cut fun _ h ↦ h.1) fun indexed ↦
      .ite (fun _ ↦ .pure fun _ h ↦ h.1) fun _ ↦ .mono (P := fun db ↦
        (c.Asks → faults .lookup ≠ .cut) ∧ db = start) (.of_and fun hlookup ↦ ?_)
        (fun _ h ↦ ⟨h.2.2, h.1⟩) fun _ _ h ↦ h
    have hclear : (start.view c.repo).symbols = .empty ∧ c.tags x checkout = [] ∨
        faults (.clearEdges .calls) = .cut := by
      rcases h with h | h | ⟨hasks, hcut⟩
      · exact .inl h
      · exact .inr h
      · exact absurd hcut (hlookup hasks)
    have hidle := spec_clearRepoData_idle hclosed hclear
    simp only [Call.tags, Call.tree, hkind] at hidle
    exact .bind hidle fun _ ↦ hstore
  | inr changedFiles =>
    simp only [hkind] at h
    simp only [Call.tags, Call.relationships, Call.tree, hkind] at hstore
    unfold Call.run
    simp only [hkind]
    refine .ite (fun _ ↦ .pure fun _ h ↦ h) fun hne ↦ ?_
    have hidle := spec_clearRepoFiles_idle hclosed hne h
    simp only [Call.tags, Call.tree, hkind] at hidle
    exact .bind hidle fun _ ↦ hstore

end Run

/-! ### The graph of a tree -/

section Graph

variable {x : Extraction} {checkout : String → Tree} {c : Call} {repo : String}

/-- The tags and relationships of a tree make up its graph, as a build of one repository. -/
theorem stored_eq_graph (x : Extraction) (repo : String) (tree : Tree) :
    stored x repo .empty (x.extractTags tree none) (x.extractRelationships tree none) =
      graph x repo tree := by
  have hbuild : (build x repo .initial tree "" false).store = graph x repo tree :=
    build_store x repo rfl
  rw [← hbuild, build, if_neg (by decide), stored]
  simp only
  split <;> rfl

/-- Those of changed files are stored as an incremental build of one repository does it. -/
theorem stored_eq_buildIncremental (x : Extraction) (repo : String) (s : IndexState) (tree : Tree)
    {changedFiles : List String} (hne : changedFiles ≠ []) :
    stored x repo (s.store.clearRepoFiles changedFiles) (x.extractTags tree (some changedFiles))
        (x.extractRelationships tree (some changedFiles)) =
      (buildIncremental x repo s tree "" changedFiles).store := by
  rw [buildIncremental, if_neg hne, stored]
  simp only
  split <;> rfl

/-- Only tags and relationships are stored of a tree. -/
theorem fullIndex_graphOnly (x : Extraction) (repo : String) (tree : Tree) :
    fullIndex x.graphOnly repo tree = graph x repo tree := by
  have hchunks : x.graphOnly.chunkRepo tree none = [] := by
    unfold Extraction.chunkRepo Extraction.chunksAt
    simp only [List.flatMap_eq_nil_iff]
    intro path _
    cases x.graphOnly.sourceFiles tree <;> cases tree.get path <;> rfl
  have htable : symbolTable x.graphOnly repo tree = tagTable x repo tree := by
    unfold symbolTable
    rw [hchunks]
    rfl
  rw [fullIndex_eq, htable]
  rfl

/-- An incremental build that keeps up leads from the graph of a tree to that of another. -/
theorem stored_of_keepsUp {old new : Tree} {changedFiles : List String} (hne : changedFiles ≠ [])
    (h : KeepsUp x.graphOnly repo old new changedFiles []) :
    stored x repo ((graph x repo old).clearRepoFiles changedFiles)
        (x.extractTags new (some changedFiles)) (x.extractRelationships new (some changedFiles)) =
      graph x repo new := by
  let s : IndexState := ⟨graph x repo old, none, fun _ ↦ none⟩
  have hchunks : x.graphOnly.chunkRepo new (some changedFiles) = [] := by
    unfold Extraction.chunkRepo Extraction.chunksAt
    rw [List.flatMap_eq_nil_iff]
    intro path _
    show (new.get path).elim [] (fun _ ↦ []) = []
    cases new.get path <;> rfl
  have hindex : (index x.graphOnly repo s ⟨"", "", false, 0⟩ new (some changedFiles) []).store =
      fullIndex x.graphOnly repo new :=
    h.index_eq (fun _ _ ↦ List.not_mem_nil) (fullIndex_graphOnly x repo old).symm hne
      (by rw [hchunks]; rfl) ⟨.inr rfl, .inr rfl⟩
  rw [index_store_nil _ _ hchunks, fullIndex_graphOnly] at hindex
  have hbuild : mappedStore x.graphOnly repo s ⟨"", "", false, 0⟩ new (some changedFiles) =
      (buildIncremental x.graphOnly repo s new "" changedFiles).store := by
    cases changedFiles with
    | nil => exact absurd rfl hne
    | cons path rest => rfl
  rw [← hindex, hbuild]
  exact stored_eq_buildIncremental x.graphOnly repo s new hne

/-- A complete call leaves the graph of its tree. -/
theorem Complete.stored_eq {faults : Faults} {v : Store} (h : Complete x checkout c faults v)
    (htags : c.tags x checkout ≠ []) :
    stored x c.repo (c.base v) (c.tags x checkout) (c.relationships x checkout) =
      graph x c.repo (c.tree checkout) := by
  have hfits := h.fits
  unfold Fits at hfits
  cases hkind : c.kind with
  | inl options =>
    simp only [hkind] at hfits
    rw [Call.base, hkind]
    exact hfits
  | inr changedFiles =>
    simp only [hkind] at hfits
    obtain ⟨old, rfl, hkeeps⟩ := hfits
    have hne : changedFiles ≠ [] := by
      rintro rfl
      simp [Call.tags, hkind, extractTags_nil] at htags
    simp only [Call.base, Call.tags, Call.relationships, hkind]
    exact stored_of_keepsUp hne hkeeps

/-- Without faults nothing is missed. -/
theorem stores_none (x : Extraction) (repo : String) (v : Store) (tags : List Tag)
    (relationships : List Relationship) : Stores x .none repo v tags relationships := by
  refine ⟨fun i _ h ↦ (nomatch h), fun h ↦ (nomatch h), ?_⟩
  exact fun kind i batch _ h ↦ (nomatch h)

/-- Nothing stands in the way of the records of the first call. -/
theorem own_empty (x : Extraction) (repo : String) (tags : List Tag) :
    Database.empty.Own repo (tagRows x.digest repo tags) := by
  intro record hrecord
  obtain ⟨tag, -, rfl⟩ := List.mem_map.mp hrecord
  exact ⟨rfl, fun row hrow ↦ nomatch hrow⟩

/-- A full build stores the graph of its tree. -/
theorem uninterrupted_eq (x : Extraction) (checkout : String → Tree) (repo : String)
    (head : Head) : uninterrupted x checkout repo head = graph x repo (head.tree checkout) := by
  let c : Call := ⟨repo, head, .inl {}⟩
  have hspec := @spec_run x checkout c .none .empty closed_empty (own_empty x repo _) .empty rfl
  show ((c.run x checkout .none .empty).2).view repo = _
  split at hspec <;> rename_i hrun <;> rw [hrun]
  · split at hspec
    · exact nomatch hspec.2.2.2
    · obtain ⟨done, -, hview, rfl⟩ := hspec
      have hstored := hview ⟨fun h ↦ (nomatch h), fun _ ↦ stores_none x repo _ _ _⟩
      have hmark : (if Marks .none c.repo c.head (c.tags x checkout) then
          done.mark ⟨c.repo, c.head⟩ else done).view repo = done.view repo := by
        split <;> rfl
      rw [hmark]
      exact hstored.trans (stored_eq_graph x repo _)
  · obtain ⟨-, place, hcut⟩ := hspec
    exact nomatch hcut

end Graph

/-! ### Runs -/

/-- Every mark is true: its repository's graph is that of the worktree it was written for. -/
structure Honest (x : Extraction) (checkout : String → Tree) (db : Database) : Prop where
  closed : db.Closed
  marked : ∀ id m, db.commits.get id = some m →
    id = recordId m.repo ∧ db.view m.repo = graph x m.repo (m.head.tree checkout)

section Steps

variable {x : Extraction} {checkout : String → Tree} {c : Call} {faults : Faults}
  {db : Database}

/-- Changes of a repository that has no mark falsify none. -/
theorem Honest.of_unmarked (h : Honest x checkout db) {after : Database}
    (hframed : Framed db c.repo (c.records x checkout) after) (hunmarked : Unmarked db c.repo) :
    Honest x checkout after := by
  refine ⟨hframed.closed, ?_⟩
  intro id m hm
  rw [hframed.commits] at hm
  rw [hframed.others m.repo (hunmarked id m hm)]
  exact h.marked id m hm

/-- A mark that is true falsifies none. -/
theorem Honest.mark (h : Honest x checkout db) {done : Database}
    (hframed : Framed db c.repo (c.records x checkout) done)
    (hview : done.view c.repo = graph x c.repo (c.tree checkout)) :
    Honest x checkout (done.mark ⟨c.repo, c.head⟩) := by
  refine ⟨hframed.closed, ?_⟩
  intro id m hm
  unfold Database.mark at hm
  rw [Table.get_upsert, hframed.commits] at hm
  split at hm
  · next hid =>
    cases hm
    exact ⟨hid, hview⟩
  · next hid =>
    obtain ⟨hrecord, hgraph⟩ := h.marked id m hm
    have hne : m.repo ≠ c.repo := fun heq ↦ hid (heq ▸ hrecord)
    exact ⟨hrecord, (hframed.others m.repo hne).trans hgraph⟩

/-- The step: a reliable call leaves all marks true. -/
theorem Honest.run (h : Honest x checkout db) (hreliable : Reliable x checkout db c faults) :
    Honest x checkout (c.run x checkout faults db).2 := by
  by_cases hskips : c.Skips faults db
  · rw [run_of_skips hskips]
    exact h
  obtain ⟨hown, hcall⟩ := hreliable.2 hskips
  have hspec := @spec_run x checkout c faults db h.closed hown db rfl
  have hquiet {after : Database} (hframed : Framed db c.repo (c.records x checkout) after)
      (hafter : (c.run x checkout faults db).2 = after)
      (hquiet : Unmarked db c.repo ∨ Idle x checkout c faults db) : Honest x checkout after := by
    rcases hquiet with hunmarked | hidle
    · exact h.of_unmarked hframed hunmarked
    · rw [← hafter, run_of_idle h.closed hidle]
      exact h
  generalize hrun : c.run x checkout faults db = result at hspec hcall hquiet ⊢
  obtain ⟨skipped, after⟩ := result
  cases skipped with
  | none =>
    rw [if_neg fun hboth ↦ hboth.1 rfl] at hcall
    exact hquiet hspec.1 rfl hcall
  | some skipped =>
    simp only at hspec
    cases skipped with
    | true => exact absurd hspec.2 hskips
    | false =>
      obtain ⟨done, hframed, hview, hdone⟩ := hspec
      by_cases hmarks : Marks faults c.repo c.head (c.tags x checkout)
      · rw [if_pos hmarks] at hdone
        rw [if_pos ⟨Option.some_ne_none _, hmarks⟩] at hcall
        have hgraph := (hview ⟨hcall.clears, fun _ ↦ hcall.stores⟩).trans
          (hcall.stored_eq hmarks.1)
        subst hdone
        exact h.mark hframed hgraph
      · rw [if_neg hmarks] at hdone
        rw [if_neg fun hboth ↦ hmarks hboth.2] at hcall
        subst hdone
        exact hquiet hframed rfl hcall

/-- A build that was skipped found the mark of its repository. -/
theorem Honest.skipped (h : Honest x checkout db) (hreliable : Reliable x checkout db c faults)
    (hrun : (c.run x checkout faults db).1 = some true) :
    db.view c.repo = graph x c.repo (c.tree checkout) := by
  have hskips : c.Skips faults db := by
    by_contra hskips
    have hspec := @spec_run x checkout c faults db h.closed (hreliable.2 hskips).1 db rfl
    generalize c.run x checkout faults db = result at hspec hrun
    obtain ⟨skipped, after⟩ := result
    cases hrun
    exact hskips hspec.2
  exact (h.marked _ _ (hreliable.1 hskips)).2

end Steps

/-- In a run of reliable calls, in any order, on any repositories, every skipped build was sound. -/
theorem skipsSound_of_reliable (x : Extraction) (checkout : String → Tree) {s : Served}
    (h : (serving x checkout).ReachWhen
      (fun s call ↦ Reliable x checkout s.database call.1 call.2) s) :
    SkipsSound x checkout s := by
  refine (h.invariant (P := fun s ↦ Honest x checkout s.database ∧ SkipsSound x checkout s)
    ?_ ?_).2
  · rintro _ rfl
    refine ⟨⟨closed_empty, fun id m hm ↦ nomatch hm⟩, fun k hk ↦ nomatch hk⟩
  · rintro s ⟨c, faults⟩ s' ⟨hhonest, hsound⟩ hreliable hstep
    cases hstep
    refine ⟨hhonest.run hreliable, ?_⟩
    intro k hk
    simp only at hk
    split at hk
    · next hrun =>
      rcases List.mem_cons.mp hk with rfl | hk
      · rw [uninterrupted_eq]
        exact hhonest.skipped hreliable hrun
      · exact hsound k hk
    · exact hsound k hk

/-- A build of the first commit of the example. -/
def firstBuild : Call := ⟨"o/r", .commit "c1", .inl {}⟩

/-- The database after this build alone. -/
def firstDatabase (faults : Faults) : Database :=
  (firstBuild.run exampleExtraction exampleHistory faults .empty).2

/-- The build again, in what it has left. -/
theorem serving_firstBuild (faults : Faults) {s : Served}
    (hfirst : (firstBuild.run exampleExtraction exampleHistory faults .empty).1 = some false)
    (hskips : firstBuild.Skips .none (firstDatabase faults))
    (hs : s = ⟨firstDatabase faults,
      [⟨"o/r", .commit "c1", (firstDatabase faults).view "o/r"⟩]⟩) :
    (serving exampleExtraction exampleHistory).step ⟨.empty, []⟩ (firstBuild, faults) =
        some ⟨firstDatabase faults, []⟩ ∧
      (serving exampleExtraction exampleHistory).step ⟨firstDatabase faults, []⟩
        (firstBuild, .none) = some s := by
  subst hs
  unfold serving
  refine ⟨?_, ?_⟩
  · simp only [hfirst]
    rfl
  · simp only [run_of_skips hskips]
    rfl

/-- A commit is built twice: the second build is skipped, and nothing is missing. -/
theorem skipsSound_of_reliable_twice :
    SkipsSound exampleExtraction exampleHistory ⟨firstDatabase .none,
      [⟨"o/r", .commit "c1", (firstDatabase .none).view "o/r"⟩]⟩ := by
  have hskips : firstBuild.Skips .none (firstDatabase .none) :=
    ⟨⟨⟨rfl, rfl⟩, by decide⟩, rfl, by decide⟩
  obtain ⟨hfirst, hsecond⟩ := serving_firstBuild .none (by decide) hskips rfl
  have hreliable : Reliable exampleExtraction exampleHistory .empty firstBuild .none := by
    refine ⟨fun h ↦ (nomatch h.2.2), fun _ ↦ ⟨own_empty _ _ _, ?_⟩⟩
    rw [if_pos ⟨by decide, by decide⟩]
    exact ⟨fun h ↦ (nomatch h), stores_none _ _ _ _ _, stored_eq_graph _ _ _⟩
  have hagain : Reliable exampleExtraction exampleHistory (firstDatabase .none) firstBuild .none :=
    ⟨fun _ ↦ by decide, fun h ↦ absurd hskips h⟩
  exact skipsSound_of_reliable exampleExtraction exampleHistory
    (.step _ (.step _ (.init rfl) hreliable hfirst) hagain hsecond)

/-- The only batch of symbols fails. -/
def lostBatch : Faults
  | .symbols 0 => .failed
  | _ => .done

/-- A batch of symbols is lost, the commit is marked, and the next build of it is skipped. -/
theorem not_skipsSound :
    ¬ ∀ x checkout s, (serving x checkout).Reach s → SkipsSound x checkout s := by
  intro h
  have hskips : firstBuild.Skips .none (firstDatabase lostBatch) :=
    ⟨⟨⟨rfl, rfl⟩, by decide⟩, rfl, by decide⟩
  obtain ⟨hfirst, hsecond⟩ := serving_firstBuild lostBatch (by decide) hskips rfl
  have hheld := h exampleExtraction exampleHistory _
    (.step _ (.step _ (.init rfl) trivial hfirst) trivial hsecond) _ (List.mem_singleton.mpr rfl)
  have hlength := congrArg (fun v : Store ↦ v.symbols.rows.length) hheld
  revert hlength
  decide

end GithubAgent.Indexing
