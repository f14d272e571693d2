import GithubAgent.Indexing.FullIndex

/-!
# When incremental indexing equals a full rebuild

An incremental job deletes the symbols of the changed files, and with them the edges that lead
into these files from others, whose relationships are not extracted again. It resolves the
relationships of the changed files among everything stored at that moment. The condition
below says of one job when nothing of this shows; jobs that meet it keep the store equal to a
full index of the last commit.
-/

namespace GithubAgent.Indexing

open GithubAgent.Base

/-! ### The condition on a job -/

section Condition

variable (x : Extraction) (repo : String)

/-- What is stored of a file, unless the walk leaves it out. -/
def dataAt (tree : Tree) (path : String) : Option (List Tag × List Chunk) :=
  if path ∈ x.sourceFiles tree then some (x.tagsAt tree path, x.chunksAt tree path) else none

/-- The edges of relationships that resolve to a definition outside the given files. -/
def survivingEdges (defs : List (String × Row)) (gone : List String)
    (relationships : List Relationship) : List Edge :=
  relationships.filterMap fun r ↦
    ((resolve defs r).filter fun ends ↦ ends.2.2.filepath ∉ gone).map (edgeOf r)

/-- The symbols among which an incremental job resolves: those of the tree indexed last
without the changed files, and the new tags of these. -/
def mixedTable (old new : Tree) (changed : List String) : Table String Row :=
  ((symbolTable x repo old).filter (·.filepath ∉ changed)).upsertAll
    (tagRows x.digest repo (x.extractTags new (some changed)))

/-- An incremental job with these changed and removed files leads from the index of the old
tree to that of the new one. -/
structure KeepsUp (old new : Tree) (changed removed : List String) : Prop where
  /-- Different files have no symbol id in common. -/
  separate : ∀ tree ∈ [old, new], ∀ tree' ∈ [old, new],
    ∀ p ∈ x.sourceFiles tree, ∀ p' ∈ x.sourceFiles tree',
      ∀ row ∈ rowsAt x repo tree p, ∀ row' ∈ rowsAt x repo tree' p', row.1 = row'.1 → p = p'
  /-- The other files have the same symbols in both trees. -/
  leftAlone : ∀ p ∈ x.sourceFiles old ++ x.sourceFiles new, p ∉ changed → p ∉ removed →
    dataAt x old p = dataAt x new p
  /-- Changed files that the walk leaves out have no chunks. -/
  excluded : ∀ p ∈ changed, p ∉ x.sourceFiles new → x.chunksAt new p = []
  /-- The removed files are deleted, or had no symbols. -/
  deleted : x.chunkRepo new (some changed) ≠ [] ∨
    ∀ p ∈ removed, p ∈ x.sourceFiles old → rowsAt x repo old p = []
  /-- The edges of another file that do not lead into a changed or removed one are its edges
  in the new tree. -/
  kept : ∀ p ∈ x.sourceFiles new, p ∉ changed →
    survivingEdges (definitions (tagTable x repo old)) (changed ++ removed)
        (x.relationshipsAt old p) =
      resolvedEdges (definitions (tagTable x repo new)) (x.relationshipsAt new p)
  /-- The relationships of a changed file resolve as among the definitions of the new tree. -/
  resolved : ∀ p ∈ x.sourceFiles new, p ∈ changed →
    survivingEdges (definitions (mixedTable x repo old new changed)) removed
        (x.relationshipsAt new p) =
      resolvedEdges (definitions (tagTable x repo new)) (x.relationshipsAt new p)

/-- The index that the last job should have left. -/
def lastIndex (history : String → Tree) : Option String → Store
  | none => .empty
  | some commit => fullIndex x repo (history commit)

/-- A table of routes or tools is rewritten, or was empty. -/
def RewritesMaps (s : IndexState) (tree : Tree) : Prop :=
  (x.routes tree ≠ [] ∨ s.store.routes = []) ∧ (x.tools tree ≠ [] ∨ s.store.tools = [])

/-- A full index of the commit: when the graph is taken for built, the last index is that of
the commit; all chunks are embedded. -/
def FullKeepsUp (history : String → Tree) (p : Progress) (job : Job) : Prop :=
  RewritesMaps x p.state (history job.commit) ∧
    (x.chunkRepo (history job.commit) none).length ≤ job.embedded ∧
    (isCommitIndexed p.state job.commit job.indexedElsewhere = true →
      lastIndex x repo history p.lastCommit = fullIndex x repo (history job.commit))

/-- Only removed files: the graph is rebuilt and no chunk is stored, so there is none. -/
def RemovalKeepsUp (history : String → Tree) (p : Progress) (job : Job) : Prop :=
  RewritesMaps x p.state (history job.commit) ∧
    if isCommitIndexed p.state job.commit job.indexedElsewhere = true then
      lastIndex x repo history p.lastCommit = fullIndex x repo (history job.commit)
    else x.chunkRepo (history job.commit) none = []

/-- An incremental index since the commit that the ref had last. -/
def IncrementalKeepsUp (history : String → Tree) (p : Progress) (job : Job)
    (changed removed : List String) : Prop :=
  RewritesMaps x p.state (history job.commit) ∧
    (x.chunkRepo (history job.commit) (some changed)).length ≤ job.embedded ∧
    ∃ last, p.lastCommit = some last ∧
      KeepsUp x repo (history last) (history job.commit) changed removed

/-- The condition on a job, by the branch it takes. -/
def JobKeepsUp (history : String → Tree) (p : Progress) (job : Job) : Prop :=
  match p.state.indexedCommits job.ref with
  | none => FullKeepsUp x repo history p job
  | some previous =>
    if previous = job.commit then FullKeepsUp x repo history p job
    else
      let changed := changedFiles (history previous) (history job.commit)
      let removed := removedFiles (history previous) (history job.commit)
      if changed = [] then
        if removed = [] then
          lastIndex x repo history p.lastCommit = fullIndex x repo (history job.commit)
        else RemovalKeepsUp x repo history p job
      else IncrementalKeepsUp x repo history p job changed removed

end Condition

/-! ### The owner of a symbol id -/

/-- The rows of a table lie in the files that own their ids. -/
def Owned (owner : String → String) (t : Table String Row) : Prop :=
  ∀ key row, t.get key = some row → row.filepath = owner key

section Owner

variable {x : Extraction} {repo : String} {owner : String → String} {t : Table String Row}

theorem Owned.filter (h : Owned owner t) (keep : Row → Bool) : Owned owner (t.filter keep) := by
  intro key row hrow
  rw [Table.get_filter, Option.filter_eq_some_iff] at hrow
  exact h key row hrow.1

theorem Owned.upsertAll (h : Owned owner t) {rows : List (String × Row)}
    (hrows : ∀ row ∈ rows, row.2.filepath = owner row.1) : Owned owner (t.upsertAll rows) := by
  intro key row hrow
  rw [Table.get_upsertAll] at hrow
  rcases Option.or_eq_some_iff.mp hrow with hrow | ⟨_, hrow⟩
  · exact hrows _ (mem_of_dictGet hrow)
  · exact h key row hrow

theorem owned_empty : Owned owner Table.empty := by
  intro key row hrow
  cases hrow

/-- An edge keeps its ends when its files are not deleted. -/
theorem hasEnds_filter (h : Owned owner t) (files : List String) (e : Edge) :
    Store.HasEnds (t.filter (·.filepath ∉ files)) e ↔
      Store.HasEnds t e ∧ owner e.source ∉ files ∧ owner e.target ∉ files := by
  have hget (key : String) : (t.filter (·.filepath ∉ files)).get key ≠ none ↔
      t.get key ≠ none ∧ owner key ∉ files := by
    rw [Table.get_filter]
    cases hrow : t.get key with
    | none => simp
    | some row => simp [Option.filter, h key row hrow]
  unfold Store.HasEnds
  rw [hget, hget]
  tauto

/-- Upserts take no end away. -/
theorem hasEnds_upsertAll {e : Edge} (h : Store.HasEnds t e) (rows : List (String × Row)) :
    Store.HasEnds (t.upsertAll rows) e := by
  have hget (key : String) (hkey : t.get key ≠ none) : (t.upsertAll rows).get key ≠ none := by
    rw [Table.get_upsertAll]
    simp [hkey]
  exact ⟨hget _ h.1, hget _ h.2⟩

theorem hasEnds_of_mem_resolvedEdges {relationships : List Relationship} {e : Edge}
    (h : e ∈ resolvedEdges (definitions t) relationships) : Store.HasEnds t e := by
  obtain ⟨r, _, he⟩ := List.mem_filterMap.mp h
  obtain ⟨ends, hends, rfl⟩ := Option.map_eq_some_iff.mp he
  obtain ⟨hsource, htarget, _⟩ := mem_of_resolve hends
  unfold Store.HasEnds edgeOf
  simp [hsource, htarget]

/-- Deleting files leaves the edges from the other files that do not lead into them. -/
theorem filter_resolvedEdges (h : Owned owner t) {gone : List String}
    {relationships : List Relationship} (hfile : ∀ r ∈ relationships, r.sourceFile ∉ gone) :
    (resolvedEdges (definitions t) relationships).filter
        (fun e ↦ owner e.source ∉ gone ∧ owner e.target ∉ gone) =
      survivingEdges (definitions t) gone relationships := by
  unfold resolvedEdges survivingEdges
  rw [List.filter_filterMap]
  apply List.filterMap_congr
  intro r hr
  cases hres : resolve (definitions t) r with
  | none => rfl
  | some ends =>
    obtain ⟨hsource, htarget, hsfile⟩ := mem_of_resolve hres
    have hs : owner ends.1.1 ∉ gone := by
      rw [← h _ _ hsource, hsfile]
      exact hfile r hr
    have htf : owner ends.2.1 = ends.2.2.filepath := (h _ _ htarget).symm
    by_cases hgone : ends.2.2.filepath ∈ gone <;>
      simp [Option.filter, edgeOf, hs, htf, hgone]

/-- Deleting files leaves no edge from them. -/
theorem filter_resolvedEdges_eq_nil (h : Owned owner t) {gone : List String}
    {relationships : List Relationship} (hfile : ∀ r ∈ relationships, r.sourceFile ∈ gone) :
    (resolvedEdges (definitions t) relationships).filter
        (fun e ↦ owner e.source ∉ gone ∧ owner e.target ∉ gone) = [] := by
  rw [List.filter_eq_nil_iff]
  intro e he
  obtain ⟨r, hr, he⟩ := List.mem_filterMap.mp he
  obtain ⟨ends, hends, rfl⟩ := Option.map_eq_some_iff.mp he
  obtain ⟨hsource, _, hsfile⟩ := mem_of_resolve hends
  have hs : owner ends.1.1 ∈ gone := by
    rw [← h _ _ hsource, hsfile]
    exact hfile r hr
  simp [edgeOf, hs]

end Owner

/-! ### An incremental job that keeps up -/

section Incremental

variable {x : Extraction} {repo : String} {old new : Tree} {changed removed : List String}

/-- Different files have no id in common, so an id tells its file. -/
theorem KeepsUp.exists_owner (h : KeepsUp x repo old new changed removed) :
    ∃ owner : String → String, ∀ tree ∈ [old, new], ∀ p ∈ x.sourceFiles tree,
      ∀ row ∈ rowsAt x repo tree p, owner row.1 = p := by
  classical
  let Has (key p : String) : Prop :=
    ∃ tree ∈ [old, new], p ∈ x.sourceFiles tree ∧ ∃ row ∈ rowsAt x repo tree p, row.1 = key
  refine ⟨fun key ↦ if hkey : ∃ p, Has key p then hkey.choose else "", ?_⟩
  intro tree htree p hp row hrow
  have hkey : ∃ p, Has row.1 p := ⟨p, tree, htree, hp, row, hrow, rfl⟩
  obtain ⟨tree', htree', hp', row', hrow', heq⟩ := hkey.choose_spec
  beta_reduce
  rw [dif_pos hkey]
  exact h.separate tree' htree' tree htree _ hp' p hp row' hrow' row hrow heq

section Owned

variable {owner : String → String}
  (howner : ∀ tree ∈ [old, new], ∀ p ∈ x.sourceFiles tree,
    ∀ row ∈ rowsAt x repo tree p, owner row.1 = p)

include howner

/-- The rows of the files of a tree lie in the files that own their ids. -/
theorem filepath_eq_owner {tree : Tree} (htree : tree ∈ [old, new]) {files : List String}
    (hfiles : ∀ p ∈ files, p ∈ x.sourceFiles tree) {g : String → List (String × Row)}
    (hg : ∀ p, ∀ row ∈ g p, row ∈ rowsAt x repo tree p) :
    ∀ row ∈ files.flatMap g, row.2.filepath = owner row.1 := by
  intro row hrow
  obtain ⟨p, hp, hrow⟩ := List.mem_flatMap.mp hrow
  have hmem := hg p row hrow
  rw [howner tree htree p (hfiles p hp) row hmem]
  exact filepath_of_mem_rowsAt hmem

theorem owned_tagTable {tree : Tree} (htree : tree ∈ [old, new]) :
    Owned owner (tagTable x repo tree) := by
  unfold tagTable
  rw [tagRows_extractTags]
  exact owned_empty.upsertAll (filepath_eq_owner howner htree (fun p hp ↦ hp) fun p row hrow ↦
    List.mem_append_left _ hrow)

theorem owned_symbolTable {tree : Tree} (htree : tree ∈ [old, new]) :
    Owned owner (symbolTable x repo tree) := by
  unfold symbolTable
  rw [chunkRows_chunkRepo]
  exact (owned_tagTable howner htree).upsertAll (filepath_eq_owner howner htree
    (fun p hp ↦ hp) fun p row hrow ↦ List.mem_append_right _ hrow)

theorem owned_mixedTable : Owned owner (mixedTable x repo old new changed) := by
  unfold mixedTable
  rw [tagRows_extractTags]
  have hold := (owned_symbolTable howner List.mem_cons_self).filter (·.filepath ∉ changed)
  have hnew : new ∈ [old, new] := by simp
  exact hold.upsertAll (filepath_eq_owner howner hnew
    (fun p hp ↦ (List.mem_filter.mp hp).1) fun p row hrow ↦ List.mem_append_left _ hrow)

end Owned

/-- A file left alone has the same rows in both trees. -/
theorem KeepsUp.rowsAt_eq (h : KeepsUp x repo old new changed removed) {p : String}
    (hp : p ∈ x.sourceFiles old ∨ p ∈ x.sourceFiles new) (hchanged : p ∉ changed)
    (hremoved : p ∉ removed) :
    p ∈ x.sourceFiles old ∧ p ∈ x.sourceFiles new ∧
      rowsAt x repo old p = rowsAt x repo new p := by
  have hdata := h.leftAlone p (List.mem_append.mpr hp) hchanged hremoved
  unfold dataAt at hdata
  have hboth : p ∈ x.sourceFiles old ∧ p ∈ x.sourceFiles new := by
    rcases hp with hp | hp
    · rw [if_pos hp] at hdata
      refine ⟨hp, ?_⟩
      by_contra hnot
      rw [if_neg hnot] at hdata
      cases hdata
    · rw [if_pos hp] at hdata
      refine ⟨?_, hp⟩
      by_contra hnot
      rw [if_neg hnot] at hdata
      cases hdata
  rw [if_pos hboth.1, if_pos hboth.2, Option.some.injEq, Prod.mk.injEq] at hdata
  refine ⟨hboth.1, hboth.2, ?_⟩
  unfold rowsAt tagRowsAt chunkRowsAt
  rw [hdata.1, hdata.2]

/-- The chunks of changed files are those of changed source files. -/
theorem KeepsUp.mem_sourceFiles (h : KeepsUp x repo old new changed removed) {p : String}
    (hp : p ∈ changed) {row : String × Row} (hrow : row ∈ chunkRowsAt x repo new p) :
    p ∈ x.sourceFiles new := by
  by_contra hnot
  unfold chunkRowsAt at hrow
  rw [h.excluded p hp hnot] at hrow
  cases hrow

/-- The symbols after a job: those resolved among, less the removed files, and the chunks of
the changed files. -/
def jobTable (x : Extraction) (repo : String) (old new : Tree) (changed removed : List String) :
    Table String Row :=
  ((mixedTable x repo old new changed).filter (·.filepath ∉ removed)).upsertAll
    ((x.chunkRepo new (some changed)).map (Chunk.row x.digest repo))

theorem get_jobTable (key : String) : (jobTable x repo old new changed removed).get key =
    (dictGet (changed.flatMap (chunkRowsAt x repo new)) key).or
      (((dictGet ((x.selected new (some changed)).flatMap (tagRowsAt x repo new)) key).or
        (((symbolTable x repo old).get key).filter (·.filepath ∉ changed))).filter
          (·.filepath ∉ removed)) := by
  have hchunks : (x.chunkRepo new (some changed)).map (Chunk.row x.digest repo) =
      changed.flatMap (chunkRowsAt x repo new) := by
    unfold Extraction.chunkRepo
    rw [List.map_flatMap]
    rfl
  rw [jobTable, Table.get_upsertAll, hchunks, Table.get_filter, mixedTable, Table.get_upsertAll,
    Table.get_filter, tagRows_extractTags]

theorem mem_selected {p : String} :
    p ∈ x.selected new (some changed) ↔ p ∈ x.sourceFiles new ∧ p ∈ changed := by
  simp [Extraction.selected]

/-- The row of a changed file is written anew. -/
theorem KeepsUp.get_changed (h : KeepsUp x repo old new changed removed) {p key : String}
    (hp : p ∈ x.sourceFiles new) (hchanged : p ∈ changed) (hremoved : p ∉ removed)
    (honly : ∀ q ∈ x.sourceFiles new, ∀ row ∈ rowsAt x repo new q, row.1 = key → q = p)
    (hsome : dictGet (rowsAt x repo new p) key ≠ none) :
    (jobTable x repo old new changed removed).get key = dictGet (rowsAt x repo new p) key := by
  have hchunk : ∀ q ∈ changed, ∀ row ∈ chunkRowsAt x repo new q, row.1 = key → q = p := by
    intro q hq row hrow
    exact honly q (h.mem_sourceFiles hq hrow) row (List.mem_append_right _ hrow)
  have htag : ∀ q ∈ x.selected new (some changed), ∀ row ∈ tagRowsAt x repo new q,
      row.1 = key → q = p := by
    intro q hq row hrow
    exact honly q (mem_selected.mp hq).1 row (List.mem_append_left _ hrow)
  rw [get_jobTable, dictGet_flatMap hchanged hchunk,
    dictGet_flatMap (mem_selected.mpr ⟨hp, hchanged⟩) htag]
  rw [rowsAt, dictGet_append] at hsome ⊢
  cases hc : dictGet (chunkRowsAt x repo new p) key with
  | some value => rfl
  | none =>
    rw [hc, Option.none_or] at hsome
    obtain ⟨value, hvalue⟩ := Option.ne_none_iff_exists'.mp hsome
    have hfile : value.filepath = p :=
      filepath_of_mem_rowsAt (List.mem_append_left _ (mem_of_dictGet hvalue))
    simp [hvalue, Option.filter, hfile, hremoved]

/-- An id that no changed file has keeps its row, unless its file was deleted. -/
theorem KeepsUp.get_unchanged (h : KeepsUp x repo old new changed removed) {key : String}
    (hnone : ∀ q ∈ x.sourceFiles new, q ∈ changed → ∀ row ∈ rowsAt x repo new q, row.1 ≠ key) :
    (jobTable x repo old new changed removed).get key =
      (((symbolTable x repo old).get key).filter (·.filepath ∉ changed)).filter
        (·.filepath ∉ removed) := by
  have hchunk : dictGet (changed.flatMap (chunkRowsAt x repo new)) key = none :=
    dictGet_flatMap_of_forall_ne fun q hq row hrow ↦
      hnone q (h.mem_sourceFiles hq hrow) hq row (List.mem_append_right _ hrow)
  have htag : dictGet ((x.selected new (some changed)).flatMap (tagRowsAt x repo new)) key =
      none := by
    refine dictGet_flatMap_of_forall_ne fun q hq row hrow ↦ ?_
    obtain ⟨hsource, hq⟩ := mem_selected.mp hq
    exact hnone q hsource hq row (List.mem_append_left _ hrow)
  rw [get_jobTable, hchunk, htag, Option.none_or, Option.none_or]

/-- The symbols after a job are those of the new tree. -/
theorem KeepsUp.jobTable_eq (h : KeepsUp x repo old new changed removed)
    (hremoved : ∀ p ∈ x.sourceFiles new, p ∉ removed) :
    jobTable x repo old new changed removed = symbolTable x repo new := by
  have hnew : new ∈ [old, new] := by simp
  apply Table.ext_get
  intro key
  by_cases hkey : ∃ p ∈ x.sourceFiles new, ∃ row ∈ rowsAt x repo new p, row.1 = key
  · obtain ⟨p, hp, row, hrow, rfl⟩ := hkey
    have honly {tree : Tree} (htree : tree ∈ [old, new]) (q : String)
        (hq : q ∈ x.sourceFiles tree) (row' : String × Row)
        (hrow' : row' ∈ rowsAt x repo tree q) (heq : row'.1 = row.1) : q = p :=
      h.separate tree htree new hnew q hq p hp row' hrow' row hrow heq
    have hsome := dictGet_ne_none hrow
    rw [get_symbolTable hp (honly hnew)]
    by_cases hchanged : p ∈ changed
    · exact h.get_changed hp hchanged (hremoved p hp) (honly hnew) hsome
    · obtain ⟨hpold, _, hrows⟩ := h.rowsAt_eq (.inr hp) hchanged (hremoved p hp)
      rw [h.get_unchanged, get_symbolTable hpold (honly List.mem_cons_self), hrows]
      · obtain ⟨value, hvalue⟩ := Option.ne_none_iff_exists'.mp hsome
        have hfile : value.filepath = p := filepath_of_mem_rowsAt (mem_of_dictGet hvalue)
        simp [hvalue, Option.filter, hfile, hchanged, hremoved p hp]
      · intro q hq hqc row' hrow' heq
        exact hchanged (honly hnew q hq row' hrow' heq ▸ hqc)
  · have hnone : ∀ q ∈ x.sourceFiles new, ∀ row ∈ rowsAt x repo new q, row.1 ≠ key :=
      fun q hq row hrow heq ↦ hkey ⟨q, hq, row, hrow, heq⟩
    have hfull : (symbolTable x repo new).get key = none := by
      cases hget : (symbolTable x repo new).get key with
      | none => rfl
      | some row =>
        obtain ⟨q, hq, hrow⟩ := exists_of_get_symbolTable hget
        exact absurd rfl (hnone q hq _ hrow)
    rw [hfull, h.get_unchanged fun q hq _ ↦ hnone q hq]
    cases hold : (symbolTable x repo old).get key with
    | none => rfl
    | some row =>
      obtain ⟨q, hq, hrow⟩ := exists_of_get_symbolTable hold
      have hfile : row.filepath = q := filepath_of_mem_rowsAt hrow
      -- an id that is not in the new tree was that of a changed or removed file
      have hgone : q ∈ changed ∨ q ∈ removed := by
        by_contra hleft
        rw [not_or] at hleft
        obtain ⟨_, hqnew, hrows⟩ := h.rowsAt_eq (.inl hq) hleft.1 hleft.2
        exact hnone q hqnew _ (hrows ▸ hrow) rfl
      rcases hgone with hgone | hgone
      · simp [Option.filter, hfile, hgone]
      · by_cases hqc : q ∈ changed <;> simp [Option.filter, hfile, hgone, hqc]

/-- The edges of files that are left alone, or deleted with the others. -/
theorem KeepsUp.kept_edges (h : KeepsUp x repo old new changed removed)
    (hremoved : ∀ p ∈ x.sourceFiles new, p ∉ removed) {owner : String → String}
    (howner : ∀ tree ∈ [old, new], ∀ p ∈ x.sourceFiles tree,
      ∀ row ∈ rowsAt x repo tree p, owner row.1 = p) :
    ((treeEdges x repo old).filter fun e ↦
        owner e.source ∉ changed ++ removed ∧ owner e.target ∉ changed ++ removed).Perm
      (((x.sourceFiles new).filter (fun p ↦ !decide (p ∈ changed))).flatMap fun p ↦
        resolvedEdges (definitions (tagTable x repo new)) (x.relationshipsAt new p)) := by
  have howned : Owned owner (tagTable x repo old) := owned_tagTable howner List.mem_cons_self
  have hfiles : ((x.sourceFiles old).filter (fun p ↦ !decide (p ∈ changed ++ removed))).Perm
      ((x.sourceFiles new).filter (fun p ↦ !decide (p ∈ changed))) := by
    rw [List.perm_ext_iff_of_nodup ((x.nodup_sourceFiles old).filter _)
      ((x.nodup_sourceFiles new).filter _)]
    intro p
    simp only [List.mem_filter, List.mem_append, Bool.not_eq_true', decide_eq_false_iff_not,
      not_or]
    constructor
    · rintro ⟨hp, hchanged, hrem⟩
      exact ⟨(h.rowsAt_eq (.inl hp) hchanged hrem).2.1, hchanged⟩
    · rintro ⟨hp, hchanged⟩
      exact ⟨(h.rowsAt_eq (.inr hp) hchanged (hremoved p hp)).1, hchanged, hremoved p hp⟩
  rw [treeEdges_eq, List.filter_flatMap,
    flatMap_eq_flatMap_filter (fun p ↦ !decide (p ∈ changed ++ removed))]
  · refine List.Perm.trans ?_ (hfiles.flatMap_right _)
    apply List.Perm.of_eq
    apply List.flatMap_congr
    intro p hp
    simp only [List.mem_filter, Bool.not_eq_true', decide_eq_false_iff_not] at hp
    rw [filter_resolvedEdges howned]
    · have hnew := (List.mem_filter.mp (hfiles.mem_iff.mp (List.mem_filter.mpr
        ⟨hp.1, by simpa using hp.2⟩)))
      exact h.kept p hnew.1 (by simpa using hnew.2)
    · intro r hr
      rw [sourceFile_of_mem_relationshipsAt hr]
      exact hp.2
  · intro p _ hgone
    apply filter_resolvedEdges_eq_nil howned
    intro r hr
    rw [sourceFile_of_mem_relationshipsAt hr]
    simpa only [Bool.not_eq_false', decide_eq_true_eq] using hgone

/-- The edges of the changed files. -/
theorem KeepsUp.new_edges (h : KeepsUp x repo old new changed removed)
    (hremoved : ∀ p ∈ x.sourceFiles new, p ∉ removed) {owner : String → String}
    (howner : ∀ tree ∈ [old, new], ∀ p ∈ x.sourceFiles tree,
      ∀ row ∈ rowsAt x repo tree p, owner row.1 = p) :
    ((resolvedEdges (definitions (mixedTable x repo old new changed))
        (x.extractRelationships new (some changed))).filter fun e ↦
          owner e.source ∉ removed ∧ owner e.target ∉ removed) =
      ((x.sourceFiles new).filter (· ∈ changed)).flatMap fun p ↦
        resolvedEdges (definitions (tagTable x repo new)) (x.relationshipsAt new p) := by
  unfold Extraction.extractRelationships
  rw [resolvedEdges_flatMap, List.filter_flatMap]
  unfold Extraction.selected
  apply List.flatMap_congr
  intro p hp
  simp only [List.mem_filter, decide_eq_true_eq] at hp
  rw [filter_resolvedEdges (owned_mixedTable howner)]
  · exact h.resolved p hp.1 hp.2
  · intro r hr
    rw [sourceFile_of_mem_relationshipsAt hr]
    exact hremoved p hp.1

/-- The edges before the removed files are deleted. -/
def jobEdges (x : Extraction) (repo : String) (old new : Tree) (changed : List String) :
    Multiset Edge :=
  Multiset.filter (Store.HasEnds ((symbolTable x repo old).filter (·.filepath ∉ changed)))
      (treeEdges x repo old) +
    (resolvedEdges (definitions (mixedTable x repo old new changed))
      (x.extractRelationships new (some changed)) : List Edge)

theorem hasEnds_of_mem_treeEdges {tree : Tree} {e : Edge} (he : e ∈ treeEdges x repo tree) :
    Store.HasEnds (symbolTable x repo tree) e :=
  hasEnds_upsertAll (hasEnds_of_mem_resolvedEdges he) _

theorem hasEnds_of_mem_jobEdges {e : Edge} (he : e ∈ jobEdges x repo old new changed) :
    Store.HasEnds (mixedTable x repo old new changed) e := by
  unfold jobEdges at he
  rcases Multiset.mem_add.mp he with he | he
  · exact hasEnds_upsertAll (Multiset.mem_filter.mp he).2 _
  · exact hasEnds_of_mem_resolvedEdges he

/-- The edges after a job are those of the new tree. -/
theorem KeepsUp.jobEdges_eq (h : KeepsUp x repo old new changed removed)
    (hremoved : ∀ p ∈ x.sourceFiles new, p ∉ removed) :
    (jobEdges x repo old new changed).filter (Store.HasEnds
        ((mixedTable x repo old new changed).filter (·.filepath ∉ removed))) =
      treeEdges x repo new := by
  obtain ⟨owner, howner⟩ := h.exists_owner
  have howned : Owned owner (mixedTable x repo old new changed) := owned_mixedTable howner
  have hmixed := hasEnds_filter howned removed
  have hold := hasEnds_filter (owned_symbolTable howner (List.mem_cons_self (a := old))) changed
  have hkept : Multiset.filter (Store.HasEnds
        ((mixedTable x repo old new changed).filter (·.filepath ∉ removed)))
      (Multiset.filter (Store.HasEnds ((symbolTable x repo old).filter (·.filepath ∉ changed)))
        (treeEdges x repo old)) =
      ((treeEdges x repo old).filter fun e ↦
        owner e.source ∉ changed ++ removed ∧ owner e.target ∉ changed ++ removed : List Edge) := by
    rw [Multiset.filter_filter, ← Multiset.filter_coe]
    apply Multiset.filter_congr
    intro e he
    have hends := hasEnds_of_mem_treeEdges (Multiset.mem_coe.mp he)
    rw [hmixed, hold]
    simp only [List.mem_append, not_or]
    constructor
    · rintro ⟨⟨_, hs, ht⟩, _, hsc, htc⟩
      exact ⟨⟨hsc, hs⟩, htc, ht⟩
    · rintro ⟨⟨hsc, hs⟩, htc, ht⟩
      have hcleared := (hold e).mpr ⟨hends, hsc, htc⟩
      exact ⟨⟨hasEnds_upsertAll hcleared _, hs, ht⟩, hends, hsc, htc⟩
  have hnew : Multiset.filter (Store.HasEnds
        ((mixedTable x repo old new changed).filter (·.filepath ∉ removed)))
      (resolvedEdges (definitions (mixedTable x repo old new changed))
        (x.extractRelationships new (some changed)) : List Edge) =
      ((resolvedEdges (definitions (mixedTable x repo old new changed))
        (x.extractRelationships new (some changed))).filter fun e ↦
          owner e.source ∉ removed ∧ owner e.target ∉ removed : List Edge) := by
    rw [← Multiset.filter_coe]
    apply Multiset.filter_congr
    intro e he
    rw [hmixed, and_iff_right (hasEnds_of_mem_resolvedEdges (Multiset.mem_coe.mp he))]
  rw [jobEdges, Multiset.filter_add, hkept, hnew, h.new_edges hremoved howner,
    Multiset.coe_add, Multiset.coe_eq_coe, treeEdges_eq new]
  refine List.Perm.trans ?_ (flatMap_filter_append_perm _ _ (· ∈ changed))
  exact ((h.kept_edges hremoved howner).append_right _).trans List.perm_append_comm

/-- The graph of an incremental job. -/
theorem buildIncremental_store {s : IndexState} {commit : String}
    (hs : s.store = fullIndex x repo old) (hchanged : changed ≠ []) :
    (buildIncremental x repo s new commit changed).store =
      ⟨mixedTable x repo old new changed, jobEdges x repo old new changed, x.routes old,
        x.tools old⟩ := by
  have hcleared : s.store.clearRepoFiles changed =
      ⟨(symbolTable x repo old).filter (·.filepath ∉ changed),
        Multiset.filter (Store.HasEnds ((symbolTable x repo old).filter (·.filepath ∉ changed)))
          (treeEdges x repo old), x.routes old, x.tools old⟩ := by
    rw [hs, fullIndex_eq, Store.clearRepoFiles_eq]
    have hsymbols := Store.symbols_deleteFiles (fullIndex x repo old) changed
    have hedges := Store.edges_deleteFiles (fullIndex x repo old) changed
    have hroutes := Store.routes_deleteFiles (fullIndex x repo old) changed
    have htools := Store.tools_deleteFiles (fullIndex x repo old) changed
    rw [hsymbols] at hedges
    rw [fullIndex_eq] at hsymbols hedges hroutes htools
    generalize Store.deleteFiles _ changed = after at *
    obtain ⟨symbols, edges, routes, tools⟩ := after
    simp only at hsymbols hedges hroutes htools
    rw [hsymbols, hroutes, htools,
      hedges fun e he ↦ hasEnds_of_mem_treeEdges (Multiset.mem_coe.mp he)]
  unfold buildIncremental
  simp only [hchanged, ↓reduceIte, hcleared]
  split
  · next htags =>
    have hmixed : mixedTable x repo old new changed =
        (symbolTable x repo old).filter (·.filepath ∉ changed) := by
      rw [mixedTable, htags]
      rfl
    have hnil : resolvedEdges (definitions (mixedTable x repo old new changed))
        (x.extractRelationships new (some changed)) = [] := by
      apply resolvedEdges_eq_nil
      intro r hr key row hrow hfile
      obtain ⟨p, hp, hr⟩ := List.mem_flatMap.mp hr
      rw [hmixed, Table.get_filter, Option.filter_eq_some_iff, decide_eq_true_eq, hfile,
        sourceFile_of_mem_relationshipsAt hr] at hrow
      exact hrow.2 (mem_selected.mp hp).2
    rw [jobEdges, hnil, hmixed, Multiset.coe_nil, add_zero]
  · rfl

/-- When no chunk is stored there is nothing to delete either. -/
theorem KeepsUp.deleteFiles_mixed (h : KeepsUp x repo old new changed removed)
    (hremoved : ∀ p ∈ x.sourceFiles new, p ∉ removed)
    (hchunks : x.chunkRepo new (some changed) = []) :
    (mixedTable x repo old new changed).filter (·.filepath ∉ removed) =
      mixedTable x repo old new changed := by
  have hdeleted := h.deleted.resolve_left (not_not.mpr hchunks)
  refine Table.filter_eq_self fun key row hrow ↦ decide_eq_true ?_
  rw [mixedTable, Table.get_upsertAll, tagRows_extractTags, Table.get_filter] at hrow
  rcases Option.or_eq_some_iff.mp hrow with hrow | ⟨_, hrow⟩
  · obtain ⟨p, hp, hrow⟩ := List.mem_flatMap.mp (mem_of_dictGet hrow)
    have hfile : row.filepath = p := filepath_of_mem_rowsAt (List.mem_append_left _ hrow)
    rw [hfile]
    exact hremoved p (mem_selected.mp hp).1
  · rw [Option.filter_eq_some_iff] at hrow
    obtain ⟨p, hp, hmem⟩ := exists_of_get_symbolTable hrow.1
    have hfile : row.filepath = p := filepath_of_mem_rowsAt hmem
    intro hgone
    rw [hfile] at hgone
    rw [hdeleted p hgone hp] at hmem
    cases hmem

/-- The step: an incremental job that keeps up leaves the full index of its tree. -/
theorem KeepsUp.index_eq (h : KeepsUp x repo old new changed removed)
    (hremoved : ∀ p ∈ x.sourceFiles new, p ∉ removed) {s : IndexState} {job : Job}
    (hs : s.store = fullIndex x repo old) (hchanged : changed ≠ [])
    (hembedded : (x.chunkRepo new (some changed)).length ≤ job.embedded)
    (hmaps : RewritesMaps x s new) :
    (index x repo s job new (some changed) removed).store = fullIndex x repo new := by
  have hmapped : mappedStore x repo s job new (some changed) =
      ⟨mixedTable x repo old new changed, jobEdges x repo old new changed, x.routes new,
        x.tools new⟩ := by
    have hgraph : buildCodeGraph x repo s new job.commit job.indexedElsewhere (some changed) =
        buildIncremental x repo s new job.commit changed := by
      cases changed with
      | nil => exact absurd rfl hchanged
      | cons path rest => rfl
    have hroutes : s.store.routes = x.routes old := by rw [hs, fullIndex_eq]
    have htools : s.store.tools = x.tools old := by rw [hs, fullIndex_eq]
    obtain ⟨hr, ht⟩ := hmaps
    rw [hroutes] at hr
    rw [htools] at ht
    unfold mappedStore buildRouteMaps
    rw [hgraph, buildIncremental_store hs hchanged]
    simp only [rewritten_eq hr, rewritten_eq ht]
  have htable := h.jobTable_eq hremoved
  have hedges := h.jobEdges_eq hremoved
  rw [fullIndex_eq]
  by_cases hchunks : x.chunkRepo new (some changed) = []
  · have hmixed := h.deleteFiles_mixed hremoved hchunks
    rw [index_store_nil x repo hchunks, hmapped]
    rw [hmixed, Multiset.filter_eq_self.mpr fun e he ↦ hasEnds_of_mem_jobEdges he] at hedges
    rw [jobTable, hmixed, hchunks] at htable
    rw [hedges, ← htable]
    rfl
  · rw [index_store x repo hchunks hembedded, hmapped]
    have hsymbols := Store.symbols_deleteFiles ⟨mixedTable x repo old new changed,
      jobEdges x repo old new changed, x.routes new, x.tools new⟩ removed
    have hleft := Store.edges_deleteFiles ⟨mixedTable x repo old new changed,
      jobEdges x repo old new changed, x.routes new, x.tools new⟩ removed
      fun e he ↦ hasEnds_of_mem_jobEdges he
    rw [hsymbols, hedges] at hleft
    rw [hsymbols]
    simp only [hleft, Store.routes_deleteFiles, Store.tools_deleteFiles]
    exact congrArg (Store.mk · _ _ _) htable

end Incremental

/-! ### The other jobs -/

section Full

variable {x : Extraction} {repo : String}

/-- A graph that is taken for built is left, and the maps of the same tree are the same. -/
theorem mappedStore_of_indexed {s : IndexState} {job : Job} {tree : Tree}
    {onlyFiles : Option (List String)} (honly : onlyFiles = none ∨ onlyFiles = some [])
    (hs : s.store = fullIndex x repo tree)
    (hindexed : isCommitIndexed s job.commit job.indexedElsewhere = true) :
    mappedStore x repo s job tree onlyFiles = fullIndex x repo tree := by
  have hgraph : buildCodeGraph x repo s tree job.commit job.indexedElsewhere onlyFiles = s := by
    have hbuild : build x repo s tree job.commit job.indexedElsewhere = s := by
      unfold build
      rw [if_pos hindexed]
    rcases honly with rfl | rfl <;> exact hbuild
  unfold mappedStore buildRouteMaps
  rw [hgraph, hs, fullIndex_eq]
  simp

/-- Chunks that are stored already may be stored again. -/
theorem index_of_indexed {s : IndexState} {job : Job} {tree : Tree}
    (hs : s.store = fullIndex x repo tree)
    (hindexed : isCommitIndexed s job.commit job.indexedElsewhere = true)
    (hembedded : (x.chunkRepo tree none).length ≤ job.embedded) :
    (index x repo s job tree none []).store = fullIndex x repo tree := by
  have hmapped := mappedStore_of_indexed (.inl rfl) hs hindexed
  by_cases hchunks : x.chunkRepo tree none = []
  · rw [index_store_nil x repo hchunks, hmapped]
  · have hagain : (symbolTable x repo tree).upsertAll
        ((x.chunkRepo tree none).map (Chunk.row x.digest repo)) = symbolTable x repo tree := by
      apply Table.ext_get
      intro key
      rw [Table.get_upsertAll, symbolTable, Table.get_upsertAll, ← Option.or_assoc,
        Option.or_self]
    rw [index_store x repo hchunks hembedded, hmapped, fullIndex_eq]
    exact congrArg (Store.mk · _ _ _) hagain

/-- A full index that keeps up. -/
theorem FullKeepsUp.index_eq {history : String → Tree} {p : Progress} {job : Job}
    (h : FullKeepsUp x repo history p job)
    (hs : p.state.store = lastIndex x repo history p.lastCommit) :
    (index x repo p.state job (history job.commit) none []).store =
      fullIndex x repo (history job.commit) := by
  obtain ⟨⟨hroutes, htools⟩, hembedded, hlast⟩ := h
  cases hindexed : isCommitIndexed p.state job.commit job.indexedElsewhere with
  | true => exact index_of_indexed (hs.trans (hlast hindexed)) hindexed hembedded
  | false =>
    rw [index_of_rebuild x repo hindexed hembedded hroutes htools, fullIndex_eq]

/-- A job with removed files only that keeps up. -/
theorem RemovalKeepsUp.index_eq {history : String → Tree} {p : Progress} {job : Job}
    {removed : List String} (h : RemovalKeepsUp x repo history p job)
    (hs : p.state.store = lastIndex x repo history p.lastCommit) :
    (index x repo p.state job (history job.commit) (some []) removed).store =
      fullIndex x repo (history job.commit) := by
  obtain ⟨⟨hroutes, htools⟩, hlast⟩ := h
  rw [index_store_nil x repo rfl]
  split at hlast
  · next hindexed => exact mappedStore_of_indexed (.inr rfl) (hs.trans hlast) hindexed
  · next hindexed =>
    have htable : symbolTable x repo (history job.commit) =
        tagTable x repo (history job.commit) := by
      rw [symbolTable, hlast]
      rfl
    rw [mappedStore_of_rebuild x repo (Bool.not_eq_true _ ▸ hindexed) (.inr rfl) hroutes htools,
      fullIndex_eq, htable]

/-! ### Runs -/

/-- The source files of a tree are not among the removed ones. -/
theorem not_mem_removedFiles {old new : Tree} {p : String} (hp : p ∈ x.sourceFiles new) :
    p ∉ removedFiles old new := by
  intro hmem
  obtain ⟨file, hfile, rfl⟩ := List.mem_map.mp hmem
  rw [List.mem_filter, decide_eq_true_eq] at hfile
  exact x.get_sourceFiles new _ hp hfile.2

/-- One job that keeps up. -/
theorem processIndexingJob_store {history : String → Tree} {p : Progress} {job : Job}
    (h : JobKeepsUp x repo history p job)
    (hs : p.state.store = lastIndex x repo history p.lastCommit) :
    (processIndexingJob x repo history p.state job).store =
      fullIndex x repo (history job.commit) := by
  unfold JobKeepsUp at h
  unfold processIndexingJob
  split at h
  · next hnone =>
    rw [hnone]
    exact h.index_eq hs
  · next previous hprevious =>
    rw [hprevious]
    simp only
    split at h
    · next heq =>
      rw [if_pos heq]
      exact h.index_eq hs
    · next hne =>
      rw [if_neg hne]
      simp only at h
      split at h
      · next hchanged =>
        rw [hchanged]
        split at h
        · next hremoved =>
          rw [if_pos ⟨rfl, hremoved⟩]
          exact hs.trans h
        · next hremoved =>
          rw [if_neg fun hboth ↦ hremoved hboth.2]
          exact h.index_eq hs
      · next hchanged =>
        rw [if_neg fun hboth ↦ hchanged hboth.1]
        obtain ⟨hmaps, hembedded, last, hlast, hkeeps⟩ := h
        rw [hlast] at hs
        exact hkeeps.index_eq (fun p hp ↦ not_mem_removedFiles hp) hs hchanged hembedded hmaps

/-- The stored rows agree with a full index: the definitions, the edges, the routes and the
tools. -/
def Agrees (s full : Store) : Prop :=
  s.symbols.filter (·.kind = "definition") = full.symbols.filter (·.kind = "definition") ∧
    s.edges = full.edges ∧ s.routes = full.routes ∧ s.tools = full.tools

end Full

/-! ### A caller and its callee -/

/-- The function defined in each of two files. -/
def exampleName (path : String) : Option String :=
  if path = "a.py" then some "f" else if path = "b.py" then some "g" else none

/-- Two files with one function each, where `g` of `b.py` calls `f` of `a.py`. -/
def exampleExtraction : Extraction where
  sourceFiles tree := tree.files.map Prod.fst
  fileTags path _ := (exampleName path).toList.map fun name ↦
    ⟨path, name, .definition, 1, "function", 2⟩
  fileRelationships _ path _ :=
    if path = "b.py" then [{ sourceFile := path, sourceLine := 2, sourceName := "g",
                             targetName := "f" }] else []
  fileChunks path content := (exampleName path).toList.map fun name ↦
    ⟨path, name, .function, "python", 1, 2, content, none⟩
  routes _ := []
  tools _ := []
  digest := id
  nodup_sourceFiles tree := tree.nodup
  get_sourceFiles tree path h := by
    obtain ⟨file, hfile, rfl⟩ := List.mem_map.mp h
    intro hnone
    have hne := List.lookup_eq_none_iff.mp hnone file hfile
    simp at hne
  filepath_tags path _ t h := by
    obtain ⟨_, _, rfl⟩ := List.mem_map.mp h
    rfl
  sourceFile_relationships _ path _ r h := by
    split at h
    · rw [List.mem_singleton.mp h]
    · cases h
  filepath_chunks path _ c h := by
    obtain ⟨_, _, rfl⟩ := List.mem_map.mp h
    rfl

/-- Three commits: the callee changes in the second, the caller in the third. -/
def exampleHistory (commit : String) : Tree :=
  if commit = "c2" then ⟨[("a.py", "def f(): return 2"), ("b.py", "def g(): f()")], by decide⟩
  else if commit = "c3" then
    ⟨[("a.py", "def f(): return 1"), ("b.py", "def g(): return f()")], by decide⟩
  else ⟨[("a.py", "def f(): return 1"), ("b.py", "def g(): f()")], by decide⟩

/-- The progress after the first commit was indexed. -/
def exampleFirst : Progress :=
  ⟨processIndexingJob exampleExtraction "r" exampleHistory .initial ⟨"main", "c1", false, 2⟩,
    some "c1"⟩

/-- No edge leads into the caller. -/
theorem keepsUp_caller : KeepsUp exampleExtraction "r" (exampleHistory "c1")
    (exampleHistory "c3") ["b.py"] [] where
  separate := by decide
  leftAlone := by decide
  excluded := by decide
  deleted := .inl (by decide)
  kept := by decide
  resolved := by decide

end GithubAgent.Indexing
