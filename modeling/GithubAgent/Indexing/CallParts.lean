import GithubAgent.Indexing.View

/-!
# The parts of a call

What the clearing, the symbols, the edges and the mark leave of the view of the repository, if no
statement fails whose effect is missed. The other repositories keep theirs wherever the call is
cut off.
-/

namespace GithubAgent.Indexing

open GithubAgent.Base Database

section Parts

open Coroutine

variable {x : Extraction} {faults : Faults} {start : Database} {repo : String}
  {records : List (String × Row)}

/-- The call is cut off somewhere. -/
def CutOff (faults : Faults) (start : Database) (repo : String) (records : List (String × Row))
    (db : Database) : Prop :=
  Framed start repo records db ∧ ∃ place, faults place = .cut

/-- The symbols of the repository are gone, and all edges with them: a deletion of edges that
fails costs nothing. -/
theorem spec_clearRepoData :
    Spec (fun db ↦ Framed start repo records db ∧
        (db.view repo).symbols = (start.view repo).symbols)
      (clearRepoData faults repo)
      (fun _ db ↦ Framed start repo records db ∧
        ((faults .clearSymbols = .failed → (start.view repo).symbols = .empty) →
          db.view repo = .empty))
      (CutOff faults start repo records) := by
  refine .bind (Spec.each (I := fun _ db ↦ Framed start repo records db ∧
    (db.view repo).symbols = (start.view repo).symbols) (l := []) ?_) fun _ ↦ ?_
  · intro before kind after _
    refine .logged ?_ ?_ ?_
    · intro _ db h
      exact ⟨h.1.deleteEdges kind, h.2⟩
    · intro _ db h
      exact h
    · intro hcut db h
      exact ⟨h.1, _, hcut⟩
  · have hgone (row : Row) (h : decide (row.repo = repo) = true) : row.repo = repo :=
      of_decide_eq_true h
    refine .logged ?_ ?_ ?_
    · intro _ db h
      refine ⟨h.1.deleteSymbols hgone, fun _ ↦ ?_⟩
      have hempty : (db.view repo).symbols.filter (fun row ↦ !decide (row.repo = repo)) = .empty :=
        Table.filter_eq_empty fun id row hrow ↦ by simp [repo_of_get_view hrow]
      apply (h.1.deleteSymbols hgone).closed.view_eq_empty
      rw [view_deleteSymbols h.1.closed]
      exact hempty
    · intro hfailed db h
      exact ⟨h.1, fun hempty ↦ h.1.closed.view_eq_empty (h.2.trans (hempty hfailed))⟩
    · intro hcut db h
      exact ⟨h.1, _, hcut⟩

/-- The edges from a file go with its symbols, whether they were deleted before or not. -/
theorem deleteSymbols_of_edges {s : Store} {filepath : String} (kind : RelationshipKind) :
    Store.deleteSymbols { s with
        edges := s.edges.filter fun e ↦ ¬ (e.kind = kind ∧
          (s.symbols.get e.source).map SymbolRecord.filepath = some filepath) }
        (·.filepath = filepath) =
      s.deleteSymbols (·.filepath = filepath) := by
  have hedges : (s.edges.filter fun e ↦ ¬ (e.kind = kind ∧
        (s.symbols.get e.source).map SymbolRecord.filepath = some filepath)).filter
          (Store.HasEnds (s.symbols.filter fun row ↦ !decide (row.filepath = filepath))) =
      s.edges.filter (Store.HasEnds (s.symbols.filter fun row ↦ !decide (row.filepath = filepath))) := by
    rw [Multiset.filter_filter]
    apply Multiset.filter_congr
    intro e _
    rw [and_iff_left_iff_imp]
    rintro ⟨hsource, -⟩ ⟨-, hfile⟩
    obtain ⟨row, hrow, hfile⟩ := Option.map_eq_some_iff.mp hfile
    exact hsource (by simp [Table.get_filter, hrow, Option.filter, hfile])
  exact congrArg (Store.mk _ · s.routes s.tools) hedges

/-- In a repository's view, the condition on the repository says nothing. -/
theorem deleteSymbols_view (db : Database) (repo filepath : String) :
    (db.view repo).deleteSymbols (fun row ↦ row.filepath = filepath ∧ row.repo = repo) =
      (db.view repo).deleteSymbols (·.filepath = filepath) := by
  have hsymbols : (db.view repo).symbols.filter
      (fun row ↦ !decide (row.filepath = filepath ∧ row.repo = repo)) =
      (db.view repo).symbols.filter (fun row ↦ !decide (row.filepath = filepath)) :=
    Table.filter_congr fun id row hrow ↦ by simp [repo_of_get_view hrow]
  unfold Store.deleteSymbols
  simp only [hsymbols]

/-- One file of `_clear_repo_files`: if its symbols are not deleted, it had none. -/
theorem spec_clearFile {filepath : String} {i : Nat} {v : Store} {c : Prop}
    (hfailed : c → faults (.clearFileSymbols i) = .failed →
      ∀ id row, v.symbols.get id = some row → row.filepath ≠ filepath) :
    Spec (fun db ↦ Framed start repo records db ∧ (c → db.view repo = v))
      (each (fun _ kind ↦
          logged (statement (faults (.clearFileEdges i kind))
            (·.deleteFileEdges repo filepath kind))) 0 edgeTables >>= fun _ ↦
        logged (statement (faults (.clearFileSymbols i))
          (·.deleteSymbols fun row ↦ row.filepath = filepath ∧ row.repo = repo)))
      (fun _ db ↦ Framed start repo records db ∧ (c → db.view repo = v.clearFile filepath))
      (CutOff faults start repo records) := by
  -- the rows of the file are still there, and what is left of its edges would go with them
  let I (_ : List RelationshipKind) (db : Database) : Prop := Framed start repo records db ∧
    (c → (db.view repo).deleteSymbols (·.filepath = filepath) =
        v.deleteSymbols (·.filepath = filepath) ∧
      (faults (.clearFileSymbols i) = .failed → db.view repo = v))
  refine .bind (Q := fun _ db ↦ I edgeTables db)
    (.mono (Spec.each (I := I) (l := []) ?_) ?_ fun _ _ h ↦ h) fun _ ↦ ?_
  · intro before kind after _
    refine .logged ?_ ?_ ?_
    · rintro - db ⟨hframed, hview⟩
      refine ⟨hframed.deleteFileEdges filepath kind, fun hc ↦ ?_⟩
      obtain ⟨hdeleted, hsame⟩ := hview hc
      refine ⟨?_, fun hf ↦ ?_⟩
      · rw [view_deleteFileEdges, deleteSymbols_of_edges, hdeleted]
      · rw [deleteFileEdges_eq_self, hsame hf]
        rw [hsame hf]
        exact hfailed hc hf
    · intro _ db h
      exact h
    · intro hcut db h
      exact ⟨h.1, _, hcut⟩
  · rintro db ⟨hframed, hview⟩
    exact ⟨hframed, fun hc ↦ ⟨by rw [hview hc], fun _ ↦ hview hc⟩⟩
  · have hgone (row : Row) (h : decide (row.filepath = filepath ∧ row.repo = repo) = true) :
        row.repo = repo := (of_decide_eq_true h).2
    refine .logged ?_ ?_ ?_
    · rintro - db ⟨hframed, hview⟩
      refine ⟨hframed.deleteSymbols hgone, fun hc ↦ ?_⟩
      rw [view_deleteSymbols hframed.closed, deleteSymbols_view, (hview hc).1,
        Store.clearFile_eq]
    · rintro hf db ⟨hframed, hview⟩
      refine ⟨hframed, fun hc ↦ ?_⟩
      have hsame := (hview hc).2 hf
      have hends : ∀ e ∈ v.edges, Store.HasEnds v.symbols e := by
        intro e he
        rw [← hsame] at he ⊢
        exact hframed.closed.hasEnds_view he
      rw [hsame, Store.clearFile_eq, Store.deleteSymbols_eq_self hends]
      exact fun id row hrow ↦ decide_eq_false (hfailed hc hf id row hrow)
    · intro hcut db h
      exact ⟨h.1, _, hcut⟩

/-- No deletion of a file's symbols fails, but for files without any. -/
def ClearsFiles (faults : Faults) (v : Store) (files : List String) : Prop :=
  ∀ i filepath, files[i]? = some filepath → faults (.clearFileSymbols i) = .failed →
    ∀ id row, v.symbols.get id = some row → row.filepath ≠ filepath

theorem spec_clearRepoFiles {v : Store} (files : List String) :
    Spec (fun db ↦ Framed start repo records db ∧ db.view repo = v)
      (clearRepoFiles faults repo files)
      (fun _ db ↦ Framed start repo records db ∧
        (ClearsFiles faults v files → db.view repo = v.clearRepoFiles files))
      (CutOff faults start repo records) := by
  refine .mono (Spec.each (I := fun before db ↦ Framed start repo records db ∧
    (ClearsFiles faults v files → db.view repo = v.clearRepoFiles before)) (l := []) ?_)
    (fun db h ↦ ⟨h.1, fun _ ↦ h.2⟩) fun _ _ h ↦ h
  intro before filepath after hfiles
  have hclear : v.clearRepoFiles (before ++ [filepath]) =
      (v.clearRepoFiles before).clearFile filepath := List.foldl_append
  rw [hclear]
  apply spec_clearFile
  intro hc hf id row hrow
  rw [Store.clearRepoFiles_eq, Store.symbols_deleteFiles, Table.get_filter,
    Option.filter_eq_some_iff] at hrow
  refine hc before.length filepath ?_ hf id row hrow.1
  rw [← List.nil_append files, hfiles, List.getElem?_append_right (Nat.le_refl _), Nat.sub_self]
  rfl

/-- No batch of symbols fails. -/
def StoresSymbols (faults : Faults) (records : List (String × Row)) : Prop :=
  ∀ i < (batches 500 records).length, faults (.symbols i) ≠ .failed

theorem spec_upsertSymbols {v : Store} {c : Prop} (tags : List Tag)
    (hrecords : records = tagRows x.digest repo tags) :
    Spec (fun db ↦ Framed start repo records db ∧ (c → db.view repo = v))
      (upsertSymbols x faults repo tags)
      (fun _ db ↦ Framed start repo records db ∧
        (c ∧ StoresSymbols faults records → db.view repo = v.upsertSymbols x.digest repo tags))
      (CutOff faults start repo records) := by
  have hflatten : (batches 500 (tagRows x.digest repo tags)).flatten = records :=
    (flatten_batches (by decide) _).trans hrecords.symm
  refine .mono (Spec.each (I := fun before db ↦ Framed start repo records db ∧
    (c ∧ StoresSymbols faults records →
      db.view repo = { v with symbols := v.symbols.upsertAll before.flatten })) (l := []) ?_)
    (fun db h ↦ ⟨h.1, fun hc ↦ h.2 hc.1⟩) ?_
  · intro before batch after hsplit
    rw [List.nil_append] at hsplit
    have hmem : ∀ record ∈ batch, record ∈ records := by
      intro record hrecord
      rw [← hflatten, hsplit]
      simp [hrecord]
    have hlength : before.length < (batches 500 records).length := by
      rw [hrecords, hsplit]
      simp
    refine .logged ?_ ?_ ?_
    · rintro - db ⟨hframed, hview⟩
      refine ⟨hframed.insertSymbols hmem, fun hc ↦ ?_⟩
      rw [view_insertSymbols (fun record hrecord ↦ hframed.own record (hmem record hrecord))
        hframed.closed, hview hc, List.flatten_append, List.flatten_singleton]
      simp only [Table.upsertAll, List.foldl_append]
    · rintro hf db ⟨hframed, -⟩
      exact ⟨hframed, fun hc ↦ absurd hf (hc.2 _ hlength)⟩
    · rintro hcut db ⟨hframed, -⟩
      exact ⟨hframed, _, hcut⟩
  · rintro - db ⟨hframed, hview⟩
    refine ⟨hframed, fun hc ↦ ?_⟩
    rw [hview hc, List.nil_append, hflatten, hrecords]
    rfl

/-- Every edge of a batch is inserted, with the batch or by itself. -/
def StoresBatch (faults : Faults) (kind : RelationshipKind) (i : Nat) (batch : List Edge) : Prop :=
  faults (.edges kind i) = .failed → ∀ j < batch.length, faults (.relate kind i j) ≠ .failed

/-- The same of all batches of a list of edges. -/
def StoresEdges (faults : Faults) (edges : List Edge) : Prop :=
  ∀ kind i batch, (batches 500 (edgesOf edges kind))[i]? = some batch →
    StoresBatch faults kind i batch

theorem spec_insertBatch {v : Store} {c : Prop} {kind : RelationshipKind} {i : Nat}
    {edges batch : List Edge} (hbatch : ∀ e ∈ batch, e ∈ edges) :
    Spec (fun db ↦ Framed start repo records db ∧ db.HasEnds repo edges ∧
        (c → db.view repo = v))
      (insertBatch faults kind i batch)
      (fun _ db ↦ Framed start repo records db ∧ db.HasEnds repo edges ∧
        (c ∧ StoresBatch faults kind i batch → db.view repo = v.addEdges batch))
      (CutOff faults start repo records) := by
  refine .bind (Q := fun inserted db ↦ Framed start repo records db ∧ db.HasEnds repo edges ∧
    if inserted then c → db.view repo = v.addEdges batch
    else faults (.edges kind i) = .failed ∧ (c → db.view repo = v)) (.statement ?_ ?_ ?_) ?_
  · rintro - db ⟨hframed, hends, hview⟩
    have hown : db.HasEnds repo batch := fun e he ↦ hends e (hbatch e he)
    refine ⟨hframed.insertEdges hown, hends, fun hc ↦ ?_⟩
    rw [view_insertEdges hown, hview hc]
  · rintro hf db ⟨hframed, hends, hview⟩
    exact ⟨hframed, hends, hf, hview⟩
  · rintro hcut db ⟨hframed, -⟩
    exact ⟨hframed, _, hcut⟩
  · intro inserted
    cases inserted with
    | true => exact .pure fun db h ↦ ⟨h.1, h.2.1, fun hc ↦ h.2.2 hc.1⟩
    | false =>
      refine .mono (Spec.each (I := fun before db ↦ Framed start repo records db ∧
        db.HasEnds repo edges ∧ faults (.edges kind i) = .failed ∧
          (c ∧ StoresBatch faults kind i batch → db.view repo = v.addEdges before)) (l := []) ?_)
        ?_ fun _ _ h ↦ ⟨h.1, h.2.1, h.2.2.2⟩
      · intro before e after hsplit
        rw [List.nil_append] at hsplit
        have hone : ∀ e' ∈ [e], e' ∈ edges := by
          intro e' he'
          rw [List.mem_singleton.mp he']
          exact hbatch e (by simp [hsplit])
        have hlength : before.length < batch.length := by simp [hsplit]
        refine .logged ?_ ?_ ?_
        · rintro - db ⟨hframed, hends, hf, hview⟩
          have hown : db.HasEnds repo [e] := fun e' he' ↦ hends e' (hone e' he')
          refine ⟨hframed.insertEdges hown, hends, hf, fun hc ↦ ?_⟩
          rw [view_insertEdges hown, hview hc, Store.addEdges_append]
        · rintro hlost db ⟨hframed, hends, hf, -⟩
          exact ⟨hframed, hends, hf, fun hc ↦ absurd hlost (hc.2 hf _ hlength)⟩
        · rintro hcut db ⟨hframed, -⟩
          exact ⟨hframed, _, hcut⟩
      · rintro db ⟨hframed, hends, hf, hview⟩
        refine ⟨hframed, hends, hf, fun hc ↦ ?_⟩
        rw [hview hc.1, Store.addEdges_nil]

theorem spec_insertAllEdges {v : Store} {c : Prop} (edges : List Edge) :
    Spec (fun db ↦ Framed start repo records db ∧ db.HasEnds repo edges ∧
        (c → db.view repo = v))
      (insertAllEdges faults edges)
      (fun _ db ↦ Framed start repo records db ∧
        (c ∧ StoresEdges faults edges → db.view repo = v.addEdges edges))
      (CutOff faults start repo records) := by
  refine .mono (Spec.each (I := fun before db ↦ Framed start repo records db ∧
    db.HasEnds repo edges ∧ (c ∧ StoresEdges faults edges →
      db.view repo = v.addEdges (before.flatMap (edgesOf edges)))) (l := []) ?_)
    ?_ ?_
  · intro before kind after _
    refine .mono (Spec.each (I := fun through db ↦ Framed start repo records db ∧
      db.HasEnds repo edges ∧ (c ∧ StoresEdges faults edges → db.view repo =
        (v.addEdges (before.flatMap (edgesOf edges))).addEdges through.flatten)) (l := []) ?_)
      ?_ ?_
    · intro through batch rest hsplit
      rw [List.nil_append] at hsplit
      have hbatch : ∀ e ∈ batch, e ∈ edges := by
        intro e he
        have hmem : e ∈ (batches 500 (edgesOf edges kind)).flatten := by
          rw [hsplit]
          simp [he]
        rw [flatten_batches (by decide)] at hmem
        exact (List.mem_filter.mp hmem).1
      have hget : (batches 500 (edgesOf edges kind))[through.length]? = some batch := by
        rw [hsplit, List.getElem?_append_right (Nat.le_refl _), Nat.sub_self]
        rfl
      refine .mono (spec_insertBatch hbatch) (fun _ h ↦ h) ?_
      rintro - db ⟨hframed, hends, hview⟩
      refine ⟨hframed, hends, fun hc ↦ ?_⟩
      rw [hview ⟨hc, hc.2 kind _ batch hget⟩, List.flatten_append, List.flatten_singleton,
        Store.addEdges_append]
    · rintro db ⟨hframed, hends, hview⟩
      refine ⟨hframed, hends, fun hc ↦ ?_⟩
      rw [hview hc, List.flatten_nil, Store.addEdges_nil]
    · rintro - db ⟨hframed, hends, hview⟩
      refine ⟨hframed, hends, fun hc ↦ ?_⟩
      rw [hview hc, List.nil_append, flatten_batches (by decide), List.flatMap_append,
        List.flatMap_singleton, Store.addEdges_append]
  · rintro db ⟨hframed, hends, hview⟩
    refine ⟨hframed, hends, fun hc ↦ ?_⟩
    rw [hview hc.1, List.flatMap_nil, Store.addEdges_nil]
  · rintro - db ⟨hframed, -, hview⟩
    refine ⟨hframed, fun hc ↦ ?_⟩
    rw [hview hc, List.nil_append]
    exact v.addEdges_perm (flatMap_eraseDups_perm Edge.kind edges)

/-- The definitions are found, unless no relationship resolves, and every edge is inserted. -/
def StoresRelationships (faults : Faults) (v : Store) (relationships : List Relationship) : Prop :=
  (faults .definitions = .failed → resolvedEdges (definitions v.symbols) relationships = []) ∧
    StoresEdges faults (resolvedEdges (definitions v.symbols) relationships)

theorem spec_upsertRelationships {v : Store} {c : Prop} (relationships : List Relationship) :
    Spec (fun db ↦ Framed start repo records db ∧ (c → db.view repo = v))
      (upsertRelationships faults repo relationships)
      (fun _ db ↦ Framed start repo records db ∧
        (c ∧ StoresRelationships faults v relationships →
          db.view repo = v.upsertRelationships relationships))
      (CutOff faults start repo records) := by
  refine .ite (fun hnil ↦ .pure ?_) fun _ ↦ .bind (Q := fun defs db ↦
    (∀ found, defs = some found → c → found = definitions v.symbols) ∧
      (defs = none → faults .definitions = .failed) ∧ Framed start repo records db ∧
      (∀ found, defs = some found → db.HasEnds repo (resolvedEdges found relationships)) ∧
      (c → db.view repo = v)) (.query ?_ ?_ ?_) ?_
  · rintro db ⟨hframed, hview⟩
    refine ⟨hframed, fun hc ↦ ?_⟩
    rw [hview hc.1, hnil]
    exact (v.addEdges_nil).symm
  · rintro - db ⟨hframed, hview⟩
    refine ⟨?_, fun h ↦ (nomatch h), hframed, ?_, hview⟩
    · rintro _ ⟨⟩ hc
      rw [hview hc]
    · rintro _ ⟨⟩
      exact hasEnds_resolvedEdges relationships
  · rintro hf db ⟨hframed, hview⟩
    exact ⟨fun _ h ↦ (nomatch h), fun _ ↦ hf, hframed, fun _ h ↦ (nomatch h), hview⟩
  · rintro hcut db ⟨hframed, -⟩
    exact ⟨hframed, _, hcut⟩
  · intro defs
    refine .of_and fun hdefs ↦ .of_and fun hnone ↦ ?_
    cases defs with
    | none =>
      refine .pure fun db h ↦ ⟨h.1, fun hc ↦ ?_⟩
      rw [h.2.2 hc.1, Store.upsertRelationships, hc.2.1 (hnone rfl), Multiset.coe_nil, add_zero]
    | some found =>
      refine .mono (spec_insertAllEdges (resolvedEdges found relationships))
        (fun db h ↦ ⟨h.1, h.2.1 found rfl, h.2.2⟩) ?_
      rintro - db ⟨hframed, hview⟩
      refine ⟨hframed, fun hc ↦ ?_⟩
      obtain rfl := hdefs found rfl hc.1
      exact hview ⟨hc.1, hc.2.2⟩

/-- The call gets as far as its mark, unless it is cut off, and writes it. -/
def Marks (faults : Faults) (repo : String) (head : Head) (tags : List Tag) : Prop :=
  tags ≠ [] ∧ head.hash ≠ "" ∧ repo ≠ "" ∧ faults .mark = .done

instance (head : Head) (tags : List Tag) : Decidable (Marks faults repo head tags) :=
  inferInstanceAs (Decidable (_ ∧ _))

/-- What tags and relationships add to a store. -/
def stored (x : Extraction) (repo : String) (v : Store) (tags : List Tag)
    (relationships : List Relationship) : Store :=
  if tags = [] then v
  else (v.upsertSymbols x.digest repo tags).upsertRelationships relationships

/-- All of them are stored. -/
def Stores (x : Extraction) (faults : Faults) (repo : String) (v : Store) (tags : List Tag)
    (relationships : List Relationship) : Prop :=
  StoresSymbols faults (tagRows x.digest repo tags) ∧
    StoresRelationships faults (v.upsertSymbols x.digest repo tags) relationships

theorem spec_store {v : Store} {c : Prop} {head : Head} (tags : List Tag)
    (relationships : List Relationship) (hrecords : records = tagRows x.digest repo tags) :
    Spec (fun db ↦ Framed start repo records db ∧ (c → db.view repo = v))
      (store x faults repo head tags relationships)
      (fun _ db ↦ ∃ done, Framed start repo records done ∧
        (c ∧ (tags ≠ [] → Stores x faults repo v tags relationships) →
          done.view repo = stored x repo v tags relationships) ∧
        db = if Marks faults repo head tags then done.mark ⟨repo, head⟩ else done)
      (CutOff faults start repo records) := by
  refine .ite (fun hnil ↦ .pure ?_) fun hne ↦ ?_
  · rintro db ⟨hframed, hview⟩
    refine ⟨db, hframed, fun hc ↦ ?_, (if_neg fun h ↦ h.1 hnil).symm⟩
    rw [hview hc.1, stored, if_pos hnil]
  refine .bind (spec_upsertSymbols tags hrecords) fun _ ↦
    .bind (spec_upsertRelationships relationships) fun _ ↦ ?_
  have hstored {db : Database}
      (hview : (c ∧ StoresSymbols faults records) ∧ StoresRelationships faults
        (v.upsertSymbols x.digest repo tags) relationships → db.view repo =
          (v.upsertSymbols x.digest repo tags).upsertRelationships relationships)
      (hc : c ∧ (tags ≠ [] → Stores x faults repo v tags relationships)) :
      db.view repo = stored x repo v tags relationships := by
    obtain ⟨hsymbols, hrelationships⟩ := hc.2 hne
    rw [hview ⟨⟨hc.1, hrecords ▸ hsymbols⟩, hrelationships⟩, stored, if_neg hne]
  refine .ite (fun hnone ↦ .pure ?_) fun hsome ↦ .logged ?_ ?_ ?_
  · rintro db ⟨hframed, hview⟩
    exact ⟨db, hframed, hstored hview,
      (if_neg fun h ↦ hnone.elim h.2.1 h.2.2.1).symm⟩
  · rintro hdone db ⟨hframed, hview⟩
    rw [not_or] at hsome
    exact ⟨db, hframed, hstored hview, (if_pos ⟨hne, hsome.1, hsome.2, hdone⟩).symm⟩
  · rintro hf db ⟨hframed, hview⟩
    exact ⟨db, hframed, hstored hview, (if_neg fun h ↦ absurd (hf.symm.trans h.2.2.2) (by decide)).symm⟩
  · rintro hcut db ⟨hframed, -⟩
    exact ⟨hframed, _, hcut⟩

end Parts

end GithubAgent.Indexing
