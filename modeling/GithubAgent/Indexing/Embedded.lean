import GithubAgent.Indexing.Rebuild

/-!
# Which symbols carry an embedding

The symbol table of one repository again, now with the embeddings. The graph builder clears the
table and writes its symbols without an embedding; the chunks that a job embeds are upserted
afterwards, each with one. Every text gets an embedding.

A job for a commit should leave one embedded record for each chunk of the commit's tree. It does
so as long as the files it embeds are those whose embeddings it cleared: a commit that only
removes files clears the whole repository and embeds nothing, a commit whose graph is taken for
built clears nothing, the changed files are embedded also where the walk leaves them out, and the
changes are those since the last commit of the ref, not since the last commit indexed.
-/

namespace GithubAgent.Indexing

open GithubAgent.Base

section Symbols

variable {V : Type}

/-- The rows of `symbol` of one repository. -/
abbrev Symbols (V : Type) := Table String (SymbolRecord V)

/-- A record with an embedding, or without one. -/
def SymbolRecord.withEmbedding (r : Row) (embedding : Option V) : SymbolRecord V where
  name := r.name
  kind := r.kind
  category := r.category
  filepath := r.filepath
  line := r.line
  endLine := r.endLine
  language := r.language
  repo := r.repo
  embedding := embedding
  content := r.content

/-- A record without its embedding. -/
def SymbolRecord.forget (r : SymbolRecord V) : Row where
  name := r.name
  kind := r.kind
  category := r.category
  filepath := r.filepath
  line := r.line
  endLine := r.endLine
  language := r.language
  repo := r.repo
  embedding := none
  content := r.content

/-- One record of `_upsert_symbols`: `ON DUPLICATE KEY UPDATE` leaves the embedding of a record
that exists (`code_graph.py:1293-1301`). -/
def insertSymbol (t : Symbols V) (row : String × Row) : Symbols V :=
  t.upsert row.1 (.withEmbedding row.2 ((t.get row.1).bind SymbolRecord.embedding))

/-- The records of `_upsert_symbols`, one after the other. -/
def insertSymbols (t : Symbols V) (rows : List (String × Row)) : Symbols V :=
  rows.foldl insertSymbol t

/-- A statement of `upsert_chunks`; `MERGE` sets every field of the record. -/
def executeStatement (t : Symbols V) : Statement V → Symbols V
  | .deleteFile _ filepath => t.filter (·.filepath ≠ filepath)
  | .upsert recordId record => t.upsert recordId record

end Symbols

section Jobs

variable (x : Extraction) (repo : String) {V : Type}

/-- `_build_code_graph` on the symbols, by its branches (`code_graph.py:130-277`). -/
def graphSymbols (s : IndexState) (tree : Tree) (job : Job) (changedFiles : Option (List String))
    (t : Symbols V) : Symbols V :=
  match changedFiles with
  | some (path :: rest) =>
    insertSymbols (t.filter (·.filepath ∉ path :: rest))
      (tagRows x.digest repo (x.extractTags tree (some (path :: rest))))
  | _ =>
    if isCommitIndexed s job.commit job.indexedElsewhere then t
    else insertSymbols .empty (tagRows x.digest repo (x.extractTags tree none))

/-- The last part of a job on the symbols (`indexing_worker.py:664-716`). -/
def indexSymbols (embed : String → V) (s : IndexState) (job : Job) (tree : Tree)
    (changed : Option (List String)) (removed : List String) (t : Symbols V) : Symbols V :=
  let built := graphSymbols x repo s tree job changed t
  let chunks := x.chunkRepo tree changed
  if chunks = [] then built
  else
    (upsertChunks x.digest repo chunks (chunks.map fun c ↦ some (embed c.embedText))
      removed).foldl executeStatement built

/-- `process_indexing_job` on the symbols (`indexing_worker.py:588-725`). -/
def jobSymbols (history : String → Tree) (embed : String → V) (s : IndexState) (job : Job)
    (t : Symbols V) : Symbols V :=
  let tree := history job.commit
  match s.indexedCommits job.ref with
  | some previous =>
    if previous = job.commit then indexSymbols x repo embed s job tree none [] t
    else
      let changed := changedFiles (history previous) tree
      let removed := removedFiles (history previous) tree
      if changed = [] ∧ removed = [] then t
      else indexSymbols x repo embed s job tree (some changed) removed t
  | none => indexSymbols x repo embed s job tree none [] t

/-- Jobs one after the other, with the symbols they leave. -/
structure EmbeddedProgress (V : Type) where
  progress : Progress
  symbols : Symbols V

/-- A job, and the embeddings the API has for texts at its time. -/
structure EmbeddedJob (V : Type) where
  job : Job
  embed : String → V

/-- The runs of the indexing worker on one repository, with the embeddings. -/
def embeddedJobs (history : String → Tree) : System (EmbeddedProgress V) (EmbeddedJob V) where
  init p := p = ⟨⟨.initial, none⟩, .empty⟩
  step p a := some
    ⟨⟨processIndexingJob x repo history p.progress.state a.job, some a.job.commit⟩,
      jobSymbols x repo history a.embed p.progress.state a.job p.symbols⟩

end Jobs

/-- The records that carry an embedding. -/
def embeddedRecords {V : Type} (t : Symbols V) : Table String Row :=
  (t.filter (·.embedding.isSome)).mapValues SymbolRecord.forget

/-- The records that a full `chunk_repo` of the tree asks for, one for each chunk. -/
def chunkRecords (x : Extraction) (repo : String) (tree : Tree) : List (String × Row) :=
  (x.chunkRepo tree none).map (Chunk.row x.digest repo)

/-! ### The operations on the embedded records -/

/-- A condition that everything meets keeps the value. -/
theorem filter_eq_self {A : Type} {keep : A → Bool} (h : ∀ a, keep a = true) (o : Option A) :
    o.filter keep = o := by
  cases o with
  | none => rfl
  | some a => rw [Option.filter_some, if_pos (h a)]

section Records

variable {V : Type} {t : Symbols V}

@[simp] theorem forget_withEmbedding (r : Row) (embedding : Option V) :
    (SymbolRecord.withEmbedding r embedding).forget = r := by
  obtain ⟨_, _, _, _, _, _, _, _, e, _⟩ := r
  cases e with
  | none => rfl
  | some v => cases v

@[simp] theorem embedding_withEmbedding (r : Row) (embedding : Option V) :
    (SymbolRecord.withEmbedding r embedding).embedding = embedding := rfl

/-- The record of an id, if it carries an embedding. -/
theorem get_embeddedRecords (t : Symbols V) (key : String) :
    (embeddedRecords t).get key =
      ((t.get key).filter (·.embedding.isSome)).map SymbolRecord.forget := by
  rw [embeddedRecords, Table.get_mapValues, Table.get_filter]

@[simp] theorem embeddedRecords_empty (key : String) :
    (embeddedRecords (Table.empty : Symbols V)).get key = none := rfl

/-- Deleting files leaves the embedded records of the others. -/
theorem embeddedRecords_filter (t : Symbols V) (files : List String) (key : String) :
    (embeddedRecords (t.filter (·.filepath ∉ files))).get key =
      ((embeddedRecords t).get key).filter (·.filepath ∉ files) := by
  rw [get_embeddedRecords, get_embeddedRecords, Table.get_filter]
  cases t.get key with
  | none => rfl
  | some r =>
    by_cases hfile : r.filepath ∈ files <;> cases he : r.embedding <;>
      simp [Option.filter, SymbolRecord.forget, hfile, he]

/-- Symbols written over no embedded record carry none. -/
theorem embeddedRecords_insertSymbols {rows : List (String × Row)}
    (h : ∀ row ∈ rows, (embeddedRecords t).get row.1 = none) (key : String) :
    (embeddedRecords (insertSymbols t rows)).get key = (embeddedRecords t).get key := by
  induction rows generalizing t with
  | nil => rfl
  | cons row rest ih =>
    have hnone : (t.get row.1).bind SymbolRecord.embedding = none := by
      have hrow := h row List.mem_cons_self
      rw [get_embeddedRecords] at hrow
      cases hget : t.get row.1 with
      | none => rfl
      | some r =>
        cases he : r.embedding with
        | none => simp [he]
        | some v => simp [hget, he, Option.filter] at hrow
    have hstep (other : String) :
        (embeddedRecords (insertSymbol t row)).get other = (embeddedRecords t).get other := by
      rw [get_embeddedRecords, insertSymbol, Table.get_upsert]
      split
      · next heq =>
        rw [hnone, heq, h row List.mem_cons_self]
        rfl
      · rw [get_embeddedRecords]
    have hrest := ih (t := insertSymbol t row) fun other hother ↦ by
      rw [hstep]
      exact h other (List.mem_cons_of_mem _ hother)
    rw [← hstep key, ← hrest]
    rfl

/-- The statements of a batch of chunks: first the removed files go. -/
theorem foldl_upsertChunks (digest : String → String) (repo : String) (chunks : List Chunk)
    (embeddings : List (Option V)) (removed : List String) :
    (upsertChunks digest repo chunks embeddings removed).foldl executeStatement t =
      (chunkUpserts digest repo chunks embeddings).foldl executeStatement
        (t.filter (·.filepath ∉ removed)) := by
  unfold upsertChunks
  rw [List.foldl_append, List.foldl_map, ← Table.foldl_filter]
  rfl

/-- After them the removed files have no embedded record, and every chunk has one. -/
theorem embeddedRecords_upsertChunks (digest : String → String) (repo : String)
    (chunks : List Chunk) (embed : String → V) (removed : List String) (key : String) :
    (embeddedRecords ((upsertChunks digest repo chunks
        (chunks.map fun c ↦ some (embed c.embedText)) removed).foldl executeStatement t)).get key =
      (dictGet (chunks.map (Chunk.row digest repo)) key).or
        (((embeddedRecords t).get key).filter (·.filepath ∉ removed)) := by
  have hupserts : ∀ t : Symbols V, (embeddedRecords ((chunkUpserts digest repo chunks
        (chunks.map fun c ↦ some (embed c.embedText))).foldl executeStatement t)).get key =
      (dictGet (chunks.map (Chunk.row digest repo)) key).or ((embeddedRecords t).get key) := by
    induction chunks with
    | nil => exact fun _ ↦ rfl
    | cons c rest ih =>
      intro t
      unfold chunkUpserts at ih ⊢
      rw [List.map_cons, List.zip_cons_cons, List.map_cons, List.foldl_cons, ih, List.map_cons,
        dictGet_cons, Option.or_assoc]
      congr 1
      rw [get_embeddedRecords, executeStatement, Table.get_upsert]
      by_cases hkey : key = symbolId digest c.filepath c.startLine c.kind.value c.name repo
      · simp [Chunk.row, Chunk.record, hkey, SymbolRecord.forget, Option.filter]
      · simp [Chunk.row, hkey, get_embeddedRecords]
  rw [foldl_upsertChunks, hupserts, embeddedRecords_filter]

end Records

/-! ### The symbols without their embeddings -/

section Forget

variable {V : Type} {x : Extraction} {repo : String}

/-- The symbols without their embeddings. -/
def forgetEmbeddings (t : Symbols V) : Table String Row := t.mapValues SymbolRecord.forget

theorem forgetEmbeddings_filter (t : Symbols V) (files : List String) :
    forgetEmbeddings (t.filter (·.filepath ∉ files)) =
      (forgetEmbeddings t).filter (·.filepath ∉ files) := by
  apply Table.ext_get
  intro key
  unfold forgetEmbeddings
  rw [Table.get_mapValues, Table.get_filter, Table.get_filter, Table.get_mapValues,
    Option.filter_map]
  rfl

theorem forgetEmbeddings_upsert (t : Symbols V) (recordId : String) (record : SymbolRecord V) :
    forgetEmbeddings (t.upsert recordId record) =
      (forgetEmbeddings t).upsert recordId record.forget := by
  apply Table.ext_get
  intro key
  unfold forgetEmbeddings
  rw [Table.get_mapValues, Table.get_upsert, Table.get_upsert, Table.get_mapValues,
    apply_ite (Option.map SymbolRecord.forget)]
  rfl

theorem forgetEmbeddings_insertSymbols (t : Symbols V) (rows : List (String × Row)) :
    forgetEmbeddings (insertSymbols t rows) = (forgetEmbeddings t).upsertAll rows := by
  induction rows generalizing t with
  | nil => rfl
  | cons row rest ih =>
    have hrest := ih (insertSymbol t row)
    rw [insertSymbol, forgetEmbeddings_upsert, forget_withEmbedding] at hrest
    exact hrest

theorem forgetEmbeddings_upsertChunks (t : Symbols V) (digest : String → String) (repo : String)
    (chunks : List Chunk) (embed : String → V) (removed : List String) :
    forgetEmbeddings ((upsertChunks digest repo chunks
        (chunks.map fun c ↦ some (embed c.embedText)) removed).foldl executeStatement t) =
      ((forgetEmbeddings t).filter (·.filepath ∉ removed)).upsertAll
        (chunks.map (Chunk.row digest repo)) := by
  have hupserts : ∀ t : Symbols V, forgetEmbeddings ((chunkUpserts digest repo chunks
        (chunks.map fun c ↦ some (embed c.embedText))).foldl executeStatement t) =
      (forgetEmbeddings t).upsertAll (chunks.map (Chunk.row digest repo)) := by
    induction chunks with
    | nil => exact fun _ ↦ rfl
    | cons c rest ih =>
      intro t
      unfold chunkUpserts at ih ⊢
      rw [List.map_cons, List.zip_cons_cons, List.map_cons, List.foldl_cons, ih,
        executeStatement, forgetEmbeddings_upsert]
      rfl
  rw [foldl_upsertChunks, hupserts, forgetEmbeddings_filter]

/-- The graph leaves the symbols that the index has before the chunks. -/
theorem forgetEmbeddings_graphSymbols {s : IndexState} {t : Symbols V}
    (ht : forgetEmbeddings t = s.store.symbols) (tree : Tree) (job : Job)
    (changed : Option (List String)) :
    forgetEmbeddings (graphSymbols x repo s tree job changed t) =
      (mappedStore x repo s job tree changed).symbols := by
  have hfull : forgetEmbeddings
      (if isCommitIndexed s job.commit job.indexedElsewhere then t
        else insertSymbols .empty (tagRows x.digest repo (x.extractTags tree none))) =
      (build x repo s tree job.commit job.indexedElsewhere).store.symbols := by
    unfold build
    split
    · exact ht
    · rw [forgetEmbeddings_insertSymbols]
      simp only
      split
      · next htags => rw [htags]; rfl
      · rfl
  unfold graphSymbols mappedStore buildRouteMaps buildCodeGraph
  match changed with
  | none => exact hfull
  | some [] => exact hfull
  | some (path :: rest) =>
    have hcleared := Store.symbols_deleteFiles s.store (path :: rest)
    rw [← Store.clearRepoFiles_eq, ← ht] at hcleared
    simp only
    rw [forgetEmbeddings_insertSymbols, forgetEmbeddings_filter, ← hcleared, buildIncremental]
    simp only [reduceCtorEq, if_false]
    split
    · next htags => rw [htags]; rfl
    · rfl

/-- The last part of a job. -/
theorem forgetEmbeddings_indexSymbols {s : IndexState} {t : Symbols V} (embed : String → V)
    (ht : forgetEmbeddings t = s.store.symbols) (tree : Tree) (job : Job)
    (changed : Option (List String)) (removed : List String)
    (hembedded : (x.chunkRepo tree changed).length ≤ job.embedded) :
    forgetEmbeddings (indexSymbols x repo embed s job tree changed removed t) =
      (index x repo s job tree changed removed).store.symbols := by
  have hgraph : forgetEmbeddings (graphSymbols x repo s tree job changed t) =
      (mappedStore x repo s job tree changed).symbols :=
    forgetEmbeddings_graphSymbols ht tree job changed
  unfold indexSymbols
  by_cases hchunks : x.chunkRepo tree changed = []
  · rw [index_store_nil x repo hchunks]
    simpa only [hchunks, if_true] using hgraph
  · rw [index_store x repo hchunks hembedded, Store.symbols_deleteFiles, ← hgraph,
      ← forgetEmbeddings_upsertChunks _ _ _ _ embed]
    simp only [hchunks, if_false]

/-- Every chunk that a job may embed is embedded. -/
def EmbedsEvery (x : Extraction) (history : String → Tree) (p : Progress) (job : Job) : Prop :=
  ∀ changed ∈ [none, (p.state.indexedCommits job.ref).map fun previous ↦
      changedFiles (history previous) (history job.commit)],
    (x.chunkRepo (history job.commit) changed).length ≤ job.embedded

/-- Without their embeddings the symbols are those of the index, in every run in which every chunk
is embedded. -/
theorem forgetEmbeddings_symbols {history : String → Tree} {p : EmbeddedProgress V}
    (h : (embeddedJobs x repo history).ReachWhen
      (fun p a ↦ EmbedsEvery x history p.progress a.job) p) :
    forgetEmbeddings p.symbols = p.progress.state.store.symbols := by
  refine h.invariant (P := fun p ↦
    forgetEmbeddings p.symbols = p.progress.state.store.symbols) ?_ ?_
  · rintro _ rfl
    rfl
  · intro p a p' hp hok hstep
    cases hstep
    have hfull := hok none List.mem_cons_self
    unfold EmbedsEvery at hok
    unfold jobSymbols processIndexingJob
    cases hprevious : p.progress.state.indexedCommits a.job.ref with
    | none => exact forgetEmbeddings_indexSymbols a.embed hp _ _ _ _ hfull
    | some previous =>
      rw [hprevious] at hok
      simp only
      by_cases heq : previous = a.job.commit
      · rw [if_pos heq, if_pos heq]
        exact forgetEmbeddings_indexSymbols a.embed hp _ _ _ _ hfull
      rw [if_neg heq, if_neg heq]
      split
      · exact hp
      · exact forgetEmbeddings_indexSymbols a.embed hp _ _ _ _ (hok _ (by simp))

end Forget

/-! ### The condition on a job -/

section Condition

variable (x : Extraction) (repo : String)

/-- The chunks of a file, unless the walk leaves it out. -/
def walkedChunks (tree : Tree) (path : String) : List Chunk :=
  if path ∈ x.sourceFiles tree then x.chunksAt tree path else []

/-- An incremental job with these changed and removed files embeds the chunks that are new since
the old tree, and clears those that are gone. -/
structure EmbedsChanges (old new : Tree) (changed removed : List String) : Prop where
  /-- Different files have no symbol id in common. -/
  separate : ∀ tree ∈ [old, new], ∀ tree' ∈ [old, new],
    ∀ p ∈ x.sourceFiles tree, ∀ p' ∈ x.sourceFiles tree',
      ∀ row ∈ rowsAt x repo tree p, ∀ row' ∈ rowsAt x repo tree' p', row.1 = row'.1 → p = p'
  /-- The other files have the same chunks in both trees. -/
  leftAlone : ∀ p ∈ x.sourceFiles old ++ x.sourceFiles new, p ∉ changed → p ∉ removed →
    walkedChunks x old p = walkedChunks x new p
  /-- Changed files that the walk leaves out have no chunks. -/
  excluded : ∀ p ∈ changed, p ∉ x.sourceFiles new → x.chunksAt new p = []
  /-- The removed files are deleted, or had no chunks. -/
  deleted : x.chunkRepo new (some changed) ≠ [] ∨ ∀ p ∈ removed, walkedChunks x old p = []

/-- The records that the last job should have left. -/
def lastRecords (history : String → Tree) : Option String → List (String × Row)
  | none => []
  | some commit => chunkRecords x repo (history commit)

/-- A full index of the commit: when the graph is taken for built, nothing is cleared, and every
id of the last commit is one of this commit. -/
def FullEmbeds (history : String → Tree) (p : Progress) (job : Job) : Prop :=
  isCommitIndexed p.state job.commit job.indexedElsewhere = true →
    ∀ row ∈ lastRecords x repo history p.lastCommit,
      row.1 ∈ (chunkRecords x repo (history job.commit)).map Prod.fst

/-- Only removed files: nothing is embedded, and everything is cleared unless the graph is taken
for built. -/
def RemovalEmbeds (history : String → Tree) (p : Progress) (job : Job) : Prop :=
  if isCommitIndexed p.state job.commit job.indexedElsewhere = true then
    (lastRecords x repo history p.lastCommit).Perm (chunkRecords x repo (history job.commit))
  else x.chunkRepo (history job.commit) none = []

/-- The condition on a job, by the branch it takes; the chunks of its tree have different ids. -/
def JobEmbeds (history : String → Tree) (p : Progress) (job : Job) : Prop :=
  ((chunkRecords x repo (history job.commit)).map Prod.fst).Nodup ∧
    match p.state.indexedCommits job.ref with
    | none => FullEmbeds x repo history p job
    | some previous =>
      if previous = job.commit then FullEmbeds x repo history p job
      else
        let changed := changedFiles (history previous) (history job.commit)
        let removed := removedFiles (history previous) (history job.commit)
        if changed = [] then
          if removed = [] then
            (lastRecords x repo history p.lastCommit).Perm
              (chunkRecords x repo (history job.commit))
          else RemovalEmbeds x repo history p job
        else
          ∃ last, p.lastCommit = some last ∧
            EmbedsChanges x repo (history last) (history job.commit) changed removed

end Condition

/-! ### One job -/

section Step

variable {x : Extraction} {repo : String} {V : Type}

/-- The embedded records are the rows of a list with different ids. -/
def HoldsExactly (t : Symbols V) (rows : List (String × Row)) : Prop :=
  (rows.map Prod.fst).Nodup ∧ ∀ key, (embeddedRecords t).get key = dictGet rows key

theorem HoldsExactly.perm {t : Symbols V} {rows : List (String × Row)} (h : HoldsExactly t rows) :
    (embeddedRecords t).rows.Perm rows :=
  Table.rows_perm h.1 h.2

/-- The order of the list does not matter. -/
theorem HoldsExactly.of_perm {t : Symbols V} {rows rows' : List (String × Row)}
    (h : HoldsExactly t rows) (hperm : rows.Perm rows') : HoldsExactly t rows' := by
  have hnodup : (rows'.map Prod.fst).Nodup := (hperm.map Prod.fst).nodup_iff.mp h.1
  refine ⟨hnodup, ?_⟩
  intro key
  rw [h.2 key]
  apply dictGet_eq
  intro key value
  rw [hperm.mem_iff]
  exact mem_iff_dictGet hnodup

/-- What a job leaves: its own chunks, over what its graph left of the embedded records. -/
theorem embeddedRecords_index (embed : String → V) (s : IndexState) (job : Job) (tree : Tree)
    (changed : Option (List String)) (removed : List String) (t : Symbols V) (key : String) :
    (embeddedRecords (indexSymbols x repo embed s job tree changed removed t)).get key =
      (dictGet ((x.chunkRepo tree changed).map (Chunk.row x.digest repo)) key).or
        (((embeddedRecords (graphSymbols x repo s tree job changed t)).get key).filter fun row ↦
          x.chunkRepo tree changed = [] ∨ row.filepath ∉ removed) := by
  unfold indexSymbols
  by_cases hchunks : x.chunkRepo tree changed = []
  · rw [filter_eq_self (by simp [hchunks])]
    simp only [hchunks, ↓reduceIte, List.map_nil]
    rfl
  · simp only [hchunks, ↓reduceIte, false_or]
    exact embeddedRecords_upsertChunks _ _ _ _ _ _

/-- A full index. -/
theorem holdsExactly_of_full {history : String → Tree} {p : Progress} {job : Job} {t : Symbols V}
    (embed : String → V) (hp : HoldsExactly t (lastRecords x repo history p.lastCommit))
    (hnodup : ((chunkRecords x repo (history job.commit)).map Prod.fst).Nodup)
    (h : FullEmbeds x repo history p job) :
    HoldsExactly (indexSymbols x repo embed p.state job (history job.commit) none [] t)
      (chunkRecords x repo (history job.commit)) := by
  refine ⟨hnodup, ?_⟩
  intro key
  rw [embeddedRecords_index, filter_eq_self (by simp)]
  show (dictGet (chunkRecords x repo (history job.commit)) key).or _ = _
  unfold graphSymbols
  cases hindexed : isCommitIndexed p.state job.commit job.indexedElsewhere with
  | true =>
    simp only [if_true]
    rw [hp.2]
    cases hnew : dictGet (chunkRecords x repo (history job.commit)) key with
    | some row => rfl
    | none =>
      cases hold : dictGet (lastRecords x repo history p.lastCommit) key with
      | none => rfl
      | some row =>
        obtain ⟨row', hrow', heq⟩ := List.mem_map.mp (h hindexed _ (mem_of_dictGet hold))
        have hne := dictGet_ne_none hrow'
        rw [heq] at hne
        exact absurd hnew hne
  | false =>
    simp only [Bool.false_eq_true, if_false]
    rw [embeddedRecords_insertSymbols fun _ _ ↦ rfl, embeddedRecords_empty, Option.or_none]

/-- A commit that only removes files. -/
theorem holdsExactly_of_removal {history : String → Tree} {p : Progress} {job : Job}
    {t : Symbols V} {removed : List String} (embed : String → V)
    (hp : HoldsExactly t (lastRecords x repo history p.lastCommit))
    (hnodup : ((chunkRecords x repo (history job.commit)).map Prod.fst).Nodup)
    (h : RemovalEmbeds x repo history p job) :
    HoldsExactly (indexSymbols x repo embed p.state job (history job.commit) (some []) removed t)
      (chunkRecords x repo (history job.commit)) := by
  have hgraph : indexSymbols x repo embed p.state job (history job.commit) (some []) removed t =
      graphSymbols x repo p.state (history job.commit) job (some []) t := rfl
  rw [hgraph]
  unfold graphSymbols
  unfold RemovalEmbeds at h
  cases hindexed : isCommitIndexed p.state job.commit job.indexedElsewhere with
  | true =>
    rw [hindexed] at h
    exact hp.of_perm h
  | false =>
    rw [hindexed] at h
    refine ⟨hnodup, ?_⟩
    intro key
    have hnil : chunkRecords x repo (history job.commit) = [] := by
      have hchunks : x.chunkRepo (history job.commit) none = [] := h
      rw [chunkRecords, hchunks]
      rfl
    simp only [Bool.false_eq_true, if_false]
    rw [embeddedRecords_insertSymbols fun _ _ ↦ rfl, embeddedRecords_empty, hnil]
    rfl

/-! ### An incremental job -/

variable {old new : Tree} {changed removed : List String}

theorem chunkRecords_eq (tree : Tree) :
    chunkRecords x repo tree = (x.sourceFiles tree).flatMap (chunkRowsAt x repo tree) :=
  chunkRows_chunkRepo tree

/-- A record of the tree lies in one of its files. -/
theorem exists_of_get_chunkRecords {tree : Tree} {key : String} {row : Row}
    (h : dictGet (chunkRecords x repo tree) key = some row) :
    ∃ p ∈ x.sourceFiles tree, (key, row) ∈ chunkRowsAt x repo tree p ∧ row.filepath = p := by
  have hmem := mem_of_dictGet h
  rw [chunkRecords_eq] at hmem
  obtain ⟨p, hp, hrow⟩ := List.mem_flatMap.mp hmem
  exact ⟨p, hp, hrow, filepath_of_mem_rowsAt (List.mem_append_right _ hrow)⟩

/-- A file with a record, that is neither changed nor removed, has it in both trees. -/
theorem EmbedsChanges.chunkRowsAt_eq (h : EmbedsChanges x repo old new changed removed)
    {p : String} (hchanged : p ∉ changed) (hremoved : p ∉ removed)
    (hp : p ∈ x.sourceFiles old ++ x.sourceFiles new) :
    (if p ∈ x.sourceFiles old then chunkRowsAt x repo old p else []) =
      if p ∈ x.sourceFiles new then chunkRowsAt x repo new p else [] := by
  have hsame := congrArg (List.map (Chunk.row x.digest repo))
    (h.leftAlone p hp hchanged hremoved)
  unfold walkedChunks at hsame
  rw [apply_ite (List.map (Chunk.row x.digest repo)),
    apply_ite (List.map (Chunk.row x.digest repo))] at hsame
  exact hsame

/-- Every file with a chunk that the job embeds is a source file. -/
theorem EmbedsChanges.mem_sourceFiles (h : EmbedsChanges x repo old new changed removed)
    {p : String} (hp : p ∈ changed) {row : String × Row} (hrow : row ∈ chunkRowsAt x repo new p) :
    p ∈ x.sourceFiles new := by
  by_contra hnot
  unfold chunkRowsAt at hrow
  rw [h.excluded p hp hnot] at hrow
  cases hrow

/-- The embedded records after the graph of an incremental job: those of the other files. -/
theorem EmbedsChanges.graphSymbols (h : EmbedsChanges x repo old new changed removed)
    {s : IndexState} {job : Job} {t : Symbols V} (hchanged : changed ≠ [])
    (ht : HoldsExactly t (chunkRecords x repo old)) (key : String) :
    (embeddedRecords (graphSymbols x repo s new job (some changed) t)).get key =
      (dictGet (chunkRecords x repo old) key).filter (·.filepath ∉ changed) := by
  have hgraph : Indexing.graphSymbols x repo s new job (some changed) t =
      insertSymbols (t.filter (·.filepath ∉ changed))
        (tagRows x.digest repo (x.extractTags new (some changed))) := by
    cases changed with
    | nil => exact absurd rfl hchanged
    | cons path rest => rfl
  rw [hgraph, embeddedRecords_insertSymbols, embeddedRecords_filter, ht.2]
  intro row hrow
  rw [embeddedRecords_filter, ht.2]
  cases hold : dictGet (chunkRecords x repo old) row.1 with
  | none => rfl
  | some other =>
    rw [tagRows_extractTags] at hrow
    obtain ⟨p, hp, htag⟩ := List.mem_flatMap.mp hrow
    obtain ⟨hpnew, hpchanged⟩ := mem_selected.mp hp
    obtain ⟨q, hq, hchunk, hfile⟩ := exists_of_get_chunkRecords hold
    -- an embedded record under the id of a new symbol lies in the file of the symbol
    have hqp : q = p := h.separate old (by simp) new (by simp) q hq p hpnew _
      (List.mem_append_right _ hchunk) row (List.mem_append_left _ htag) rfl
    rw [Option.filter_some, hfile, hqp]
    simp [hpchanged]

/-- A chunk id of the new tree is that of a chunk of one file, in both trees. -/
theorem EmbedsChanges.only (h : EmbedsChanges x repo old new changed removed) {p : String}
    (hp : p ∈ x.sourceFiles new) {row : String × Row} (hrow : row ∈ chunkRowsAt x repo new p)
    {tree : Tree} (htree : tree ∈ [old, new]) : ∀ q ∈ x.sourceFiles tree,
      ∀ row' ∈ chunkRowsAt x repo tree q, row'.1 = row.1 → q = p :=
  fun q hq row' hrow' heq ↦ h.separate tree htree new (by simp) q hq p hp row'
    (List.mem_append_right _ hrow') row (List.mem_append_right _ hrow) heq

/-- A chunk of an unchanged file had its record before. -/
theorem EmbedsChanges.get_unchanged (h : EmbedsChanges x repo old new changed removed)
    {p : String} (hp : p ∈ x.sourceFiles new) (hpchanged : p ∉ changed) (hpremoved : p ∉ removed)
    {row : String × Row} (hrow : row ∈ chunkRowsAt x repo new p) :
    dictGet (chunkRecords x repo old) row.1 = dictGet (chunkRowsAt x repo new p) row.1 := by
  have hsame := h.chunkRowsAt_eq hpchanged hpremoved (List.mem_append_right _ hp)
  rw [if_pos hp] at hsame
  have hpold : p ∈ x.sourceFiles old := by
    by_contra hnot
    rw [if_neg hnot] at hsame
    rw [← hsame] at hrow
    cases hrow
  rw [if_pos hpold] at hsame
  rw [chunkRecords_eq old, dictGet_flatMap hpold (h.only hp hrow (by simp)), hsame]

/-- A record whose chunk is no longer in the tree is deleted. -/
theorem EmbedsChanges.filter_of_forall_ne (h : EmbedsChanges x repo old new changed removed)
    {key : String}
    (hnone : ∀ q ∈ x.sourceFiles new, ∀ row ∈ chunkRowsAt x repo new q, row.1 ≠ key) :
    (dictGet (chunkRecords x repo old) key).filter (fun r ↦ decide (r.filepath ∉ changed) &&
      decide (x.chunkRepo new (some changed) = [] ∨ r.filepath ∉ removed)) = none := by
  cases hold : dictGet (chunkRecords x repo old) key with
  | none => rfl
  | some row =>
    obtain ⟨q, hq, hrow, hfile⟩ := exists_of_get_chunkRecords hold
    rw [Option.filter_some, hfile]
    by_cases hqchanged : q ∈ changed
    · simp [hqchanged]
    by_cases hqremoved : q ∈ removed
    · -- a removed file without chunks to embed is not deleted, but then it has no records
      have hne : x.chunkRepo new (some changed) ≠ [] := by
        intro hnil
        have hempty := h.deleted.resolve_left (not_not.mpr hnil) q hqremoved
        unfold walkedChunks at hempty
        rw [if_pos hq] at hempty
        unfold chunkRowsAt at hrow
        rw [hempty] at hrow
        cases hrow
      simp [hqremoved, hne]
    · have hsame := h.chunkRowsAt_eq hqchanged hqremoved (List.mem_append_left _ hq)
      rw [if_pos hq] at hsame
      rw [hsame] at hrow
      split at hrow
      · next hqnew => exact absurd rfl (hnone q hqnew _ hrow)
      · cases hrow

/-- An incremental job leaves the records of its tree. -/
theorem EmbedsChanges.holdsExactly (h : EmbedsChanges x repo old new changed removed)
    (hremoved : ∀ p ∈ x.sourceFiles new, p ∉ removed) {s : IndexState} {job : Job}
    {t : Symbols V} (embed : String → V) (hchanged : changed ≠ [])
    (ht : HoldsExactly t (chunkRecords x repo old))
    (hnodup : ((chunkRecords x repo new).map Prod.fst).Nodup) :
    HoldsExactly (indexSymbols x repo embed s job new (some changed) removed t)
      (chunkRecords x repo new) := by
  refine ⟨hnodup, ?_⟩
  intro key
  have hchunks : (x.chunkRepo new (some changed)).map (Chunk.row x.digest repo) =
      changed.flatMap (chunkRowsAt x repo new) := by
    unfold Extraction.chunkRepo
    rw [List.map_flatMap]
    rfl
  rw [embeddedRecords_index, h.graphSymbols hchanged ht, hchunks, Option.filter_filter]
  by_cases hkey : ∃ p ∈ x.sourceFiles new, ∃ row ∈ chunkRowsAt x repo new p, row.1 = key
  · obtain ⟨p, hp, row, hrow, rfl⟩ := hkey
    have hchangedOnly : ∀ q ∈ changed, ∀ row' ∈ chunkRowsAt x repo new q, row'.1 = row.1 → q = p :=
      fun q hq row' hrow' ↦ h.only hp hrow (by simp) q (h.mem_sourceFiles hq hrow') row' hrow'
    rw [chunkRecords_eq new, dictGet_flatMap hp (h.only hp hrow (by simp))]
    obtain ⟨value, hvalue⟩ := Option.ne_none_iff_exists'.mp (dictGet_ne_none hrow)
    by_cases hpchanged : p ∈ changed
    · rw [dictGet_flatMap hpchanged hchangedOnly, hvalue]
      rfl
    · have hnone : dictGet (changed.flatMap (chunkRowsAt x repo new)) row.1 = none :=
        dictGet_flatMap_of_forall_ne fun q hq row' hrow' heq ↦
          hpchanged (hchangedOnly q hq row' hrow' heq ▸ hq)
      have hfile : value.filepath = p :=
        filepath_of_mem_rowsAt (List.mem_append_right _ (mem_of_dictGet hvalue))
      rw [hnone, Option.none_or, h.get_unchanged hp hpchanged (hremoved p hp) hrow, hvalue,
        Option.filter_some, hfile]
      simp [hpchanged, hremoved p hp]
  · have hnone : ∀ q ∈ x.sourceFiles new, ∀ row ∈ chunkRowsAt x repo new q, row.1 ≠ key :=
      fun q hq row hrow heq ↦ hkey ⟨q, hq, row, hrow, heq⟩
    have hnew : dictGet (chunkRecords x repo new) key = none := by
      rw [chunkRecords_eq]
      exact dictGet_flatMap_of_forall_ne hnone
    have hchunk : dictGet (changed.flatMap (chunkRowsAt x repo new)) key = none :=
      dictGet_flatMap_of_forall_ne fun q hq row hrow ↦
        hnone q (h.mem_sourceFiles hq hrow) row hrow
    rw [hnew, hchunk, Option.none_or]
    exact h.filter_of_forall_ne hnone

/-- The step: a job leaves one embedded record for each chunk of its tree. -/
theorem jobSymbols_holdsExactly {history : String → Tree} {p : Progress} {job : Job}
    {t : Symbols V} (embed : String → V) (h : JobEmbeds x repo history p job)
    (ht : HoldsExactly t (lastRecords x repo history p.lastCommit)) :
    HoldsExactly (jobSymbols x repo history embed p.state job t)
      (chunkRecords x repo (history job.commit)) := by
  obtain ⟨hnodup, h⟩ := h
  unfold jobSymbols
  cases hprevious : p.state.indexedCommits job.ref with
  | none =>
    rw [hprevious] at h
    exact holdsExactly_of_full embed ht hnodup h
  | some previous =>
    rw [hprevious] at h
    simp only at h ⊢
    by_cases heq : previous = job.commit
    · rw [if_pos heq] at h ⊢
      exact holdsExactly_of_full embed ht hnodup h
    rw [if_neg heq] at h ⊢
    by_cases hchanged : changedFiles (history previous) (history job.commit) = []
    · rw [if_pos hchanged] at h
      rw [hchanged]
      by_cases hremoved : removedFiles (history previous) (history job.commit) = []
      · rw [if_pos hremoved] at h
        rw [if_pos ⟨rfl, hremoved⟩]
        exact ht.of_perm h
      · rw [if_neg hremoved] at h
        rw [if_neg fun hboth ↦ hremoved hboth.2]
        exact holdsExactly_of_removal embed ht hnodup h
    · rw [if_neg hchanged] at h
      rw [if_neg fun hboth ↦ hchanged hboth.1]
      obtain ⟨last, hlast, hembeds⟩ := h
      rw [hlast] at ht
      exact hembeds.holdsExactly (fun p hp ↦ not_mem_removedFiles hp) embed hchanged ht hnodup

end Step

/-! ### Runs -/

/-- The changes of the caller since the first commit. -/
theorem embedsChanges_caller : EmbedsChanges exampleExtraction "r" (exampleHistory "c1")
    (exampleHistory "c3") ["b.py"] [] where
  separate := by decide
  leftAlone := by decide
  excluded := by decide
  deleted := .inl (by decide)

/-- The symbols after the first commit and after the change of the caller. -/
def exampleSymbols : Symbols Unit :=
  jobSymbols exampleExtraction "r" exampleHistory (fun _ ↦ ()) exampleFirst.state
    ⟨"main", "c3", false, 1⟩
    (jobSymbols exampleExtraction "r" exampleHistory (fun _ ↦ ()) .initial
      ⟨"main", "c1", false, 2⟩ .empty)

/-- Two commits: the second only removes the caller. -/
def removalHistory (commit : String) : Tree :=
  if commit = "c2" then ⟨[("a.py", "def f(): return 1")], by decide⟩
  else exampleHistory commit

end GithubAgent.Indexing
