import GithubAgent.Indexing.IndexJob

/-!
# What the parts of an indexing job store

The statements of a job as operations on the tables: deleting files keeps the rows and edges
of the others, upserting rows gives every id its last row. From these follows what a full
index stores.
-/

namespace GithubAgent.Indexing

open GithubAgent.Base

/-! ### Deleting files -/

namespace Store

/-- An edge with both ends in the filtered table has them in the table. -/
theorem HasEnds.of_filter {t : Table String Row} {keep : Row → Bool} {e : Edge}
    (h : HasEnds (t.filter keep) e) : HasEnds t e := by
  unfold HasEnds at h ⊢
  simp only [Table.get_filter] at h
  constructor
  · intro hnone
    exact h.1 (by rw [hnone]; rfl)
  · intro hnone
    exact h.2 (by rw [hnone]; rfl)

/-- Where no symbol is to be deleted, and no edge lacks an end, nothing is. -/
theorem deleteSymbols_eq_self {s : Store} {gone : Row → Bool}
    (hends : ∀ e ∈ s.edges, HasEnds s.symbols e)
    (h : ∀ id row, s.symbols.get id = some row → gone row = false) : s.deleteSymbols gone = s := by
  have hsymbols : s.symbols.filter (!gone ·) = s.symbols :=
    Table.filter_eq_self fun id row hrow ↦ by rw [h id row hrow, Bool.not_false]
  unfold deleteSymbols
  simp only [hsymbols, Multiset.filter_eq_self.mpr hends]

/-- The edges from a file go with its symbols. -/
theorem clearFile_eq (s : Store) (filepath : String) :
    s.clearFile filepath = s.deleteSymbols (·.filepath = filepath) := by
  unfold clearFile deleteSymbols
  simp only [Multiset.filter_filter]
  congr 1
  apply Multiset.filter_congr
  intro e _
  rw [and_iff_left_iff_imp]
  rintro ⟨hsource, _⟩ hfile
  apply hsource
  rw [Table.get_filter]
  obtain ⟨row, hrow, hfile⟩ := Option.map_eq_some_iff.mp hfile
  simp [hrow, hfile]

/-- Deleting the symbols of several files, one after the other. -/
def deleteFiles (s : Store) (files : List String) : Store :=
  files.foldl (fun s filepath ↦ s.deleteSymbols (·.filepath = filepath)) s

theorem clearRepoFiles_eq (s : Store) (files : List String) :
    s.clearRepoFiles files = s.deleteFiles files := by
  induction files generalizing s with
  | nil => rfl
  | cons filepath rest ih =>
    unfold clearRepoFiles deleteFiles at ih ⊢
    rw [List.foldl_cons, List.foldl_cons, clearFile_eq, ih]

theorem execute_deletes (s : Store) (repo : String) (files : List String) :
    (files.map (Statement.deleteFile repo)).foldl execute s = s.deleteFiles files := by
  rw [List.foldl_map]
  rfl

/-- The symbols of the other files are left. -/
theorem symbols_deleteFiles (s : Store) (files : List String) :
    (s.deleteFiles files).symbols = s.symbols.filter (·.filepath ∉ files) := by
  rw [← Table.foldl_filter]
  induction files generalizing s with
  | nil => rfl
  | cons filepath rest ih =>
    unfold deleteFiles at ih ⊢
    rw [List.foldl_cons, List.foldl_cons, ih, deleteSymbols]
    simp only [decide_not]

/-- Of edges with both ends, those are left that still have them. -/
theorem edges_deleteFiles (s : Store) (files : List String)
    (hends : ∀ e ∈ s.edges, HasEnds s.symbols e) :
    (s.deleteFiles files).edges = s.edges.filter (HasEnds (s.deleteFiles files).symbols) := by
  induction files generalizing s with
  | nil => exact (Multiset.filter_eq_self.mpr hends).symm
  | cons filepath rest ih =>
    have hstep := ih (s.deleteSymbols (·.filepath = filepath)) fun e he ↦
      (Multiset.mem_filter.mp he).2
    have hcons : s.deleteFiles (filepath :: rest) =
        (s.deleteSymbols (·.filepath = filepath)).deleteFiles rest := rfl
    rw [hcons, hstep, deleteSymbols, Multiset.filter_filter]
    apply Multiset.filter_congr
    intro e _
    rw [and_iff_left_iff_imp]
    intro hleft
    rw [symbols_deleteFiles] at hleft
    exact hleft.of_filter

@[simp] theorem routes_deleteFiles (s : Store) (files : List String) :
    (s.deleteFiles files).routes = s.routes := by
  induction files generalizing s with
  | nil => rfl
  | cons filepath rest ih => exact ih _

@[simp] theorem tools_deleteFiles (s : Store) (files : List String) :
    (s.deleteFiles files).tools = s.tools := by
  induction files generalizing s with
  | nil => rfl
  | cons filepath rest ih => exact ih _

/-- Upserting chunks changes the symbols only; chunks without an embedding are not written. -/
theorem execute_upserts (s : Store) (digest : String → String) (repo : String)
    (chunks : List Chunk) (embedded : Nat) :
    (chunkUpserts digest repo chunks (List.replicate embedded none)).foldl execute s =
      { s with
        symbols := s.symbols.upsertAll ((chunks.take embedded).map (Chunk.row digest repo)) } := by
  induction chunks generalizing s embedded with
  | nil => simp [chunkUpserts, Table.upsertAll]
  | cons c rest ih =>
    cases embedded with
    | zero => simp [chunkUpserts, Table.upsertAll]
    | succ embedded =>
      unfold chunkUpserts at ih ⊢
      rw [List.replicate_succ, List.zip_cons_cons, List.map_cons, List.foldl_cons, ih]
      rfl

end Store

/-! ### The rows and edges of a tree -/

section Tree

variable (x : Extraction) (repo : String)

/-- The rows of the tags of a file. -/
def tagRowsAt (tree : Tree) (path : String) : List (String × Row) :=
  tagRows x.digest repo (x.tagsAt tree path)

/-- The rows of the chunks of a file. -/
def chunkRowsAt (tree : Tree) (path : String) : List (String × Row) :=
  (x.chunksAt tree path).map (Chunk.row x.digest repo)

/-- The rows of a file, in the order in which they are written. -/
def rowsAt (tree : Tree) (path : String) : List (String × Row) :=
  tagRowsAt x repo tree path ++ chunkRowsAt x repo tree path

/-- The rows of the tags of a tree, among which its relationships are resolved. -/
def tagTable (tree : Tree) : Table String Row :=
  Table.empty.upsertAll (tagRows x.digest repo (x.extractTags tree none))

/-- All rows of a tree. -/
def symbolTable (tree : Tree) : Table String Row :=
  (tagTable x repo tree).upsertAll ((x.chunkRepo tree none).map (Chunk.row x.digest repo))

/-- The edges of a tree. -/
def treeEdges (tree : Tree) : List Edge :=
  resolvedEdges (definitions (tagTable x repo tree)) (x.extractRelationships tree none)

variable {x repo}

/-- What is extracted at a path is extracted from some content. -/
theorem exists_of_mem_elim {A : Type} {content : Option String} {g : String → List A} {a : A}
    (h : a ∈ content.elim [] g) : ∃ text, a ∈ g text := by
  cases content with
  | none => cases h
  | some text => exact ⟨text, h⟩

theorem filepath_of_mem_tagsAt {tree : Tree} {path : String} {t : Tag}
    (h : t ∈ x.tagsAt tree path) : t.filepath = path := by
  obtain ⟨content, h⟩ := exists_of_mem_elim h
  exact x.filepath_tags path content t h

theorem filepath_of_mem_chunksAt {tree : Tree} {path : String} {c : Chunk}
    (h : c ∈ x.chunksAt tree path) : c.filepath = path := by
  obtain ⟨content, h⟩ := exists_of_mem_elim h
  exact x.filepath_chunks path content c h

theorem sourceFile_of_mem_relationshipsAt {tree : Tree} {path : String} {r : Relationship}
    (h : r ∈ x.relationshipsAt tree path) : r.sourceFile = path := by
  obtain ⟨content, h⟩ := exists_of_mem_elim h
  exact x.sourceFile_relationships tree path content r h

/-- The rows of a file carry its path. -/
theorem filepath_of_mem_rowsAt {tree : Tree} {path : String} {row : String × Row}
    (h : row ∈ rowsAt x repo tree path) : row.2.filepath = path := by
  rcases List.mem_append.mp h with h | h
  · obtain ⟨t, ht, rfl⟩ := List.mem_map.mp h
    exact filepath_of_mem_tagsAt (mem_of_mem_dedupBy ht)
  · obtain ⟨c, hc, rfl⟩ := List.mem_map.mp h
    exact filepath_of_mem_chunksAt hc

theorem nodup_selected (tree : Tree) (onlyFiles : Option (List String)) :
    (x.selected tree onlyFiles).Nodup := by
  cases onlyFiles with
  | none => exact x.nodup_sourceFiles tree
  | some only => exact (x.nodup_sourceFiles tree).filter _

/-- The deduplicated tags of several files are those of each file. -/
theorem tagRows_extractTags (tree : Tree) (onlyFiles : Option (List String)) :
    tagRows x.digest repo (x.extractTags tree onlyFiles) =
      (x.selected tree onlyFiles).flatMap (tagRowsAt x repo tree) := by
  unfold tagRows Extraction.extractTags
  rw [dedupBy_flatMap (nodup_selected tree onlyFiles), List.map_flatMap]
  · rfl
  · intro p _ q _ t ht t' ht' hkey
    simp only [Tag.key, Prod.mk.injEq] at hkey
    rw [← filepath_of_mem_tagsAt ht, ← filepath_of_mem_tagsAt ht']
    exact hkey.2.2.2.1

theorem chunkRows_chunkRepo (tree : Tree) :
    (x.chunkRepo tree none).map (Chunk.row x.digest repo) =
      (x.sourceFiles tree).flatMap (chunkRowsAt x repo tree) := by
  unfold Extraction.chunkRepo
  rw [List.map_flatMap]
  rfl

theorem resolvedEdges_flatMap (defs : List (String × Row)) (files : List String)
    (g : String → List Relationship) :
    resolvedEdges defs (files.flatMap g) = files.flatMap fun p ↦ resolvedEdges defs (g p) := by
  unfold resolvedEdges
  rw [List.filterMap_flatMap]

theorem treeEdges_eq (tree : Tree) :
    treeEdges x repo tree = (x.sourceFiles tree).flatMap fun p ↦
      resolvedEdges (definitions (tagTable x repo tree)) (x.relationshipsAt tree p) :=
  resolvedEdges_flatMap _ _ _

/-- Every row of the table is a row of a source file. -/
theorem exists_of_get_symbolTable {tree : Tree} {key : String} {row : Row}
    (h : (symbolTable x repo tree).get key = some row) :
    ∃ p ∈ x.sourceFiles tree, (key, row) ∈ rowsAt x repo tree p := by
  rw [symbolTable, Table.get_upsertAll, tagTable, Table.get_upsertAll, Table.get_empty,
    Option.or_none, chunkRows_chunkRepo, tagRows_extractTags] at h
  rcases Option.or_eq_some_iff.mp h with h | ⟨_, h⟩
  · obtain ⟨p, hp, hrow⟩ := List.mem_flatMap.mp (mem_of_dictGet h)
    exact ⟨p, hp, List.mem_append_right _ hrow⟩
  · obtain ⟨p, hp, hrow⟩ := List.mem_flatMap.mp (mem_of_dictGet h)
    exact ⟨p, hp, List.mem_append_left _ hrow⟩

/-- The row of an id that one file has is the last one written for that file. -/
theorem get_symbolTable {tree : Tree} {key p : String} (hp : p ∈ x.sourceFiles tree)
    (hkey : ∀ q ∈ x.sourceFiles tree, ∀ row ∈ rowsAt x repo tree q, row.1 = key → q = p) :
    (symbolTable x repo tree).get key = dictGet (rowsAt x repo tree p) key := by
  have htags := dictGet_flatMap (g := tagRowsAt x repo tree) hp fun q hq row hrow ↦
    hkey q hq row (List.mem_append_left _ hrow)
  have hchunks := dictGet_flatMap (g := chunkRowsAt x repo tree) hp fun q hq row hrow ↦
    hkey q hq row (List.mem_append_right _ hrow)
  rw [symbolTable, Table.get_upsertAll, tagTable, Table.get_upsertAll, Table.get_empty,
    Option.or_none, chunkRows_chunkRepo, tagRows_extractTags, rowsAt, dictGet_append, hchunks]
  exact congrArg _ htags

theorem mem_of_byNameOnly {defs : List (String × Row)} {name : String} {row : String × Row}
    (h : byNameOnly defs name = some row) : row ∈ defs ∧ row.2.name = name :=
  ⟨List.mem_of_find?_eq_some h, of_decide_eq_true (List.find?_some h :)⟩

theorem mem_of_byNameFile {defs : List (String × Row)} {name file : String} {row : String × Row}
    (h : byNameFile defs name file = some row) :
    row ∈ defs ∧ row.2.name = name ∧ row.2.filepath = file :=
  ⟨List.mem_reverse.mp (List.mem_of_find?_eq_some h), of_decide_eq_true (List.find?_some h :)⟩

/-- The ends of a resolved relationship are definitions; the source lies in its file. -/
theorem mem_of_resolve {symbols : Table String Row} {r : Relationship}
    {ends : (String × Row) × (String × Row)}
    (h : resolve (definitions symbols) r = some ends) :
    symbols.get ends.1.1 = some ends.1.2 ∧ symbols.get ends.2.1 = some ends.2.2 ∧
      ends.1.2.filepath = r.sourceFile := by
  unfold resolve at h
  obtain ⟨source, hsource, h⟩ := Option.bind_eq_some_iff.mp h
  obtain ⟨target, htarget, h⟩ := Option.bind_eq_some_iff.mp h
  have hmem (row : String × Row) (hrow : row ∈ definitions symbols) :
      symbols.get row.1 = some row.2 := Table.mem_rows_iff.mp (List.mem_filter.mp hrow).1
  split at h
  · cases h
  · cases h
    obtain ⟨hsmem, -, hsfile⟩ := mem_of_byNameFile hsource
    refine ⟨hmem _ hsmem, hmem _ ?_, hsfile⟩
    rcases Option.or_eq_some_iff.mp htarget with htarget | ⟨-, htarget⟩
    · obtain ⟨file, -, htarget⟩ := Option.bind_eq_some_iff.mp htarget
      exact (mem_of_byNameFile htarget).1
    · exact (mem_of_byNameOnly htarget).1

/-- Relationships of files without definitions lead nowhere. -/
theorem resolvedEdges_eq_nil {symbols : Table String Row} {relationships : List Relationship}
    (h : ∀ r ∈ relationships, ∀ key row, symbols.get key = some row →
      row.filepath ≠ r.sourceFile) :
    resolvedEdges (definitions symbols) relationships = [] := by
  unfold resolvedEdges
  rw [List.filterMap_eq_nil_iff]
  intro r hr
  cases hres : resolve (definitions symbols) r with
  | none => rfl
  | some ends =>
    obtain ⟨hsource, _, hfile⟩ := mem_of_resolve hres
    exact absurd hfile (h r hr _ _ hsource)

end Tree

/-! ### What a full index stores -/

section Full

variable (x : Extraction) (repo : String)

/-- The graph that a rebuild stores, whatever was stored before. -/
theorem build_store {s : IndexState} {tree : Tree} {commit : String} {elsewhere : Bool}
    (h : isCommitIndexed s commit elsewhere = false) :
    (build x repo s tree commit elsewhere).store =
      { s.store with symbols := tagTable x repo tree, edges := treeEdges x repo tree } := by
  unfold build
  rw [h]
  simp only [Bool.false_eq_true, ↓reduceIte]
  split
  · next htags =>
    have htable : tagTable x repo tree = Table.empty := by
      rw [tagTable, htags]
      rfl
    have hedges : treeEdges x repo tree = [] := by
      unfold treeEdges
      apply resolvedEdges_eq_nil
      intro r _ key row hrow
      rw [htable, Table.get_empty] at hrow
      cases hrow
    rw [htable, hedges]
    rfl
  · simp only [Store.upsertRelationships, Store.upsertSymbols, Store.clearRepoData, zero_add]
    rfl

/-- The store of a job before its chunks. -/
def mappedStore (s : IndexState) (job : Job) (tree : Tree) (changed : Option (List String)) :
    Store :=
  (buildRouteMaps x (buildCodeGraph x repo s tree job.commit job.indexedElsewhere changed)
    tree).store

/-- A job without chunks stores the graph and the route maps only. -/
theorem index_store_nil {s : IndexState} {job : Job} {tree : Tree}
    {changed : Option (List String)} {removed : List String}
    (h : x.chunkRepo tree changed = []) :
    (index x repo s job tree changed removed).store = mappedStore x repo s job tree changed := by
  unfold index
  simp only [h, ↓reduceIte]
  rfl

/-- A job with chunks deletes the removed files and stores the chunks. -/
theorem index_store {s : IndexState} {job : Job} {tree : Tree}
    {changed : Option (List String)} {removed : List String}
    (h : x.chunkRepo tree changed ≠ [])
    (hembedded : (x.chunkRepo tree changed).length ≤ job.embedded) :
    (index x repo s job tree changed removed).store =
      { (mappedStore x repo s job tree changed).deleteFiles removed with
        symbols :=
          ((mappedStore x repo s job tree changed).deleteFiles removed).symbols.upsertAll
            ((x.chunkRepo tree changed).map (Chunk.row x.digest repo)) } := by
  unfold index
  simp only [h, ↓reduceIte, IndexState.updateMetadata, upsertChunks, List.foldl_append,
    Store.execute_deletes, Store.execute_upserts, List.take_of_length_le hembedded]
  rfl

/-- A table that is rewritten, or was empty, is the extracted one. -/
theorem rewritten_eq {A : Type} [DecidableEq A] {extracted stored : List A}
    (h : extracted ≠ [] ∨ stored = []) :
    (if extracted = [] then stored else extracted) = extracted := by
  split
  · next hnil => rw [hnil, h.resolve_left (not_not.mpr hnil)]
  · rfl

/-- The graph and the route maps of a rebuild. -/
theorem mappedStore_of_rebuild {s : IndexState} {job : Job} {tree : Tree}
    {changed : Option (List String)}
    (hindexed : isCommitIndexed s job.commit job.indexedElsewhere = false)
    (hchanged : changed = none ∨ changed = some [])
    (hroutes : x.routes tree ≠ [] ∨ s.store.routes = [])
    (htools : x.tools tree ≠ [] ∨ s.store.tools = []) :
    mappedStore x repo s job tree changed =
      ⟨tagTable x repo tree, treeEdges x repo tree, x.routes tree, x.tools tree⟩ := by
  have hgraph : buildCodeGraph x repo s tree job.commit job.indexedElsewhere changed =
      build x repo s tree job.commit job.indexedElsewhere := by
    rcases hchanged with rfl | rfl <;> rfl
  unfold mappedStore buildRouteMaps
  rw [hgraph, build_store x repo hindexed]
  simp only [rewritten_eq hroutes, rewritten_eq htools]

/-- A rebuild with all chunks stores the rows and edges of the tree. -/
theorem index_of_rebuild {s : IndexState} {job : Job} {tree : Tree}
    (hindexed : isCommitIndexed s job.commit job.indexedElsewhere = false)
    (hembedded : (x.chunkRepo tree none).length ≤ job.embedded)
    (hroutes : x.routes tree ≠ [] ∨ s.store.routes = [])
    (htools : x.tools tree ≠ [] ∨ s.store.tools = []) :
    (index x repo s job tree none []).store =
      ⟨symbolTable x repo tree, treeEdges x repo tree, x.routes tree, x.tools tree⟩ := by
  have hmapped := mappedStore_of_rebuild x repo hindexed (.inl rfl) hroutes htools
  by_cases hchunks : x.chunkRepo tree none = []
  · have htable : symbolTable x repo tree = tagTable x repo tree := by
      unfold symbolTable
      rw [hchunks]
      rfl
    rw [index_store_nil x repo hchunks, hmapped, htable]
  · rw [index_store x repo hchunks hembedded, hmapped]
    rfl

/-- A full index of a tree. -/
theorem fullIndex_eq (tree : Tree) :
    fullIndex x repo tree =
      ⟨symbolTable x repo tree, treeEdges x repo tree, x.routes tree, x.tools tree⟩ :=
  index_of_rebuild x repo rfl (le_refl _) (.inr rfl) (.inr rfl)

end Full

end GithubAgent.Indexing
