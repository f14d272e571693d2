import GithubAgent.Indexing.Database

/-!
# What the statements of a call do to the views

A call on one repository changes what is stored of that repository, as the operations on its store
say, and leaves the views of the others, as long as it writes no symbol id of theirs.
-/

namespace GithubAgent.Indexing

open GithubAgent.Base

/-- More edges in a store. -/
def Store.addEdges (v : Store) (edges : List Edge) : Store := { v with edges := v.edges + ↑edges }

theorem Store.addEdges_nil (v : Store) : v.addEdges [] = v := by
  rw [addEdges, Multiset.coe_nil, add_zero]

theorem Store.addEdges_append (v : Store) (edges more : List Edge) :
    v.addEdges (edges ++ more) = (v.addEdges edges).addEdges more := by
  unfold addEdges
  rw [← Multiset.coe_add, add_assoc]

theorem Store.addEdges_perm (v : Store) {edges more : List Edge} (h : edges.Perm more) :
    v.addEdges edges = v.addEdges more := by
  rw [addEdges, addEdges, Multiset.coe_eq_coe.mpr h]

namespace Database

variable {db : Database} {repo other : String}

/-- The ends of every edge are symbols of one repository. -/
def Closed (db : Database) : Prop :=
  ∀ e ∈ db.edges, ∃ repo, db.repoOf e.source = some repo ∧ db.repoOf e.target = some repo

theorem closed_empty : empty.Closed := by
  intro e he
  cases he

theorem get_view (id : String) :
    (db.view repo).symbols.get id = (db.symbols.get id).filter (·.repo = repo) :=
  Table.get_filter _ _ _

theorem repo_of_get_view {id : String} {row : Row} (h : (db.view repo).symbols.get id = some row) :
    row.repo = repo := by
  rw [get_view, Option.filter_eq_some_iff] at h
  exact of_decide_eq_true h.2

theorem get_view_ne_none {id : String} :
    (db.view repo).symbols.get id ≠ none ↔ db.repoOf id = some repo := by
  rw [get_view, repoOf]
  cases db.symbols.get id with
  | none => simp
  | some row => by_cases hrow : row.repo = repo <;> simp [Option.filter, hrow]

/-- The edges of a view have both ends in it. -/
theorem Closed.hasEnds_view (h : db.Closed) {e : Edge} (he : e ∈ (db.view repo).edges) :
    Store.HasEnds (db.view repo).symbols e := by
  obtain ⟨he, hsource⟩ := Multiset.mem_filter.mp he
  obtain ⟨owner, hsource', htarget⟩ := h e he
  obtain rfl : owner = repo := Option.some.inj (hsource'.symm.trans hsource)
  exact ⟨get_view_ne_none.mpr hsource, get_view_ne_none.mpr htarget⟩

/-- Without symbols nothing is stored. -/
theorem Closed.view_eq_empty (h : db.Closed) (hsymbols : (db.view repo).symbols = .empty) :
    db.view repo = .empty := by
  have hedges : (db.view repo).edges = 0 := by
    apply Multiset.eq_zero_of_forall_notMem
    intro e he
    have hsource := (h.hasEnds_view he).1
    rw [hsymbols, Table.get_empty] at hsource
    exact hsource rfl
  show Store.mk (db.view repo).symbols (db.view repo).edges [] [] = _
  rw [hsymbols, hedges]
  rfl

/-- Fewer edges between the same symbols. -/
theorem Closed.of_edges (h : db.Closed) {edges : Multiset Edge} (hedges : edges ≤ db.edges) :
    Closed { db with edges := edges } :=
  fun e he ↦ h e (Multiset.mem_of_le hedges he)

/-! ### Deleting edges -/

/-- Edges of other repositories do not matter to a view. -/
theorem view_filter_edges {keep : Edge → Prop} [DecidablePred keep]
    (h : ∀ e ∈ db.edges, db.repoOf e.source = some other → keep e) :
    view { db with edges := db.edges.filter keep } other = db.view other := by
  have hedges : (db.edges.filter keep).filter (db.repoOf ·.source = some other) =
      db.edges.filter (db.repoOf ·.source = some other) := by
    rw [Multiset.filter_filter]
    apply Multiset.filter_congr
    intro e he
    rw [and_iff_left_iff_imp]
    exact h e he
  exact congrArg (Store.mk _ · [] []) hedges

theorem view_deleteEdges_of_ne (h : other ≠ repo) (kind : RelationshipKind) :
    (db.deleteEdges repo kind).view other = db.view other := by
  apply view_filter_edges
  rintro e - hother ⟨-, hrepo⟩
  exact h (Option.some.inj (hother.symm.trans hrepo))

theorem view_deleteFileEdges_of_ne (h : other ≠ repo) (filepath : String)
    (kind : RelationshipKind) :
    (db.deleteFileEdges repo filepath kind).view other = db.view other := by
  apply view_filter_edges
  rintro e - hother ⟨-, hrepo, -⟩
  exact h (Option.some.inj (hother.symm.trans hrepo))

/-- On the view of its repository, the edges from a file go. -/
theorem view_deleteFileEdges (filepath : String) (kind : RelationshipKind) :
    (db.deleteFileEdges repo filepath kind).view repo =
      { db.view repo with
        edges := (db.view repo).edges.filter fun e ↦ ¬ (e.kind = kind ∧
          ((db.view repo).symbols.get e.source).map SymbolRecord.filepath = some filepath) } := by
  have hedges : ((db.deleteFileEdges repo filepath kind).view repo).edges =
      (db.view repo).edges.filter fun e ↦ ¬ (e.kind = kind ∧
        ((db.view repo).symbols.get e.source).map SymbolRecord.filepath = some filepath) := by
    show Multiset.filter _ (Multiset.filter _ _) = Multiset.filter _ (Multiset.filter _ _)
    rw [Multiset.filter_filter, Multiset.filter_filter]
    apply Multiset.filter_congr
    intro e _
    show db.repoOf e.source = some repo ∧ _ ↔ _
    rw [and_comm]
    refine and_congr_left fun hsource ↦ ?_
    have hget : (db.view repo).symbols.get e.source = db.symbols.get e.source := by
      obtain ⟨row, hrow, hrepo⟩ := Option.map_eq_some_iff.mp hsource
      simp [get_view, hrow, hrepo]
    rw [hget]
    simp [hsource]
  exact congrArg (Store.mk _ · [] []) hedges

/-- From a repository without symbols no edge is deleted. -/
theorem deleteEdges_eq_self (h : (db.view repo).symbols = .empty) (kind : RelationshipKind) :
    db.deleteEdges repo kind = db := by
  have hedges : db.edges.filter (fun e ↦ ¬ (e.kind = kind ∧ db.repoOf e.source = some repo)) =
      db.edges := by
    refine Multiset.filter_eq_self.mpr ?_
    rintro e - ⟨-, hrepo⟩
    have hsource := get_view_ne_none.mpr hrepo
    rw [h] at hsource
    exact hsource rfl
  unfold deleteEdges
  rw [hedges]

/-- Nor from a file without symbols. -/
theorem deleteFileEdges_eq_self {filepath : String}
    (h : ∀ id row, (db.view repo).symbols.get id = some row → row.filepath ≠ filepath)
    (kind : RelationshipKind) : db.deleteFileEdges repo filepath kind = db := by
  have hedges : db.edges.filter (fun e ↦ ¬ (e.kind = kind ∧ db.repoOf e.source = some repo ∧
      (db.symbols.get e.source).map SymbolRecord.filepath = some filepath)) = db.edges := by
    refine Multiset.filter_eq_self.mpr ?_
    rintro e - ⟨-, hrepo, hfile⟩
    obtain ⟨row, hrow, hfile⟩ := Option.map_eq_some_iff.mp hfile
    obtain ⟨row', hrow', hrepo⟩ := Option.map_eq_some_iff.mp hrepo
    obtain rfl : row' = row := Option.some.inj (hrow'.symm.trans hrow)
    exact h e.source row' (by simp [get_view, hrow', hrepo]) hfile
  unfold deleteFileEdges
  rw [hedges]

/-! ### Deleting symbols -/

section DeleteSymbols

variable {gone : Row → Bool} (hgone : ∀ row, gone row = true → row.repo = repo)

include hgone

theorem repoOf_deleteSymbols_of_ne {id : String} (h : other ≠ repo) :
    (db.deleteSymbols gone).repoOf id = some other ↔ db.repoOf id = some other := by
  unfold deleteSymbols repoOf
  simp only [Table.get_filter]
  cases hrow : db.symbols.get id with
  | none => simp
  | some row =>
    by_cases hrepo : row.repo = other
    · have hkept : gone row = false :=
        Bool.eq_false_iff.mpr fun hg ↦ h (hrepo.symm.trans (hgone row hg))
      simp [Option.filter, hkept]
    · cases hg : gone row <;> simp [Option.filter, hg, hrepo]

omit hgone in
theorem repoOf_of_deleteSymbols {id : String}
    (h : (db.symbols.filter (!gone ·)).get id ≠ none) :
    (db.deleteSymbols gone).repoOf id = db.repoOf id := by
  unfold deleteSymbols repoOf
  rw [Table.get_filter] at h ⊢
  cases hrow : db.symbols.get id with
  | none => rfl
  | some row =>
    rw [hrow] at h
    cases hg : gone row with
    | false => simp [Option.filter, hg]
    | true => simp [Option.filter, hg] at h

omit hgone in
theorem Closed.deleteSymbols (h : db.Closed) : (db.deleteSymbols gone).Closed := by
  intro e he
  obtain ⟨he, hends⟩ := Multiset.mem_filter.mp he
  obtain ⟨owner, hsource, htarget⟩ := h e he
  refine ⟨owner, ?_, ?_⟩
  · rw [repoOf_of_deleteSymbols hends.1, hsource]
  · rw [repoOf_of_deleteSymbols hends.2, htarget]

theorem view_deleteSymbols_of_ne (hclosed : db.Closed) (h : other ≠ repo) :
    (db.deleteSymbols gone).view other = db.view other := by
  have hsymbols : ((db.deleteSymbols gone).view other).symbols = (db.view other).symbols := by
    apply Table.ext_get
    intro id
    rw [get_view, get_view]
    unfold deleteSymbols
    simp only [Table.get_filter]
    cases hrow : db.symbols.get id with
    | none => rfl
    | some row =>
      by_cases hrow' : row.repo = other
      · have hkept : gone row = false :=
          Bool.eq_false_iff.mpr fun hg ↦ h (hrow'.symm.trans (hgone row hg))
        simp [Option.filter, hkept]
      · cases hg : gone row <;> simp [Option.filter, hg, hrow']
  have hedges : ((db.deleteSymbols gone).view other).edges = (db.view other).edges := by
    show Multiset.filter _ (Multiset.filter _ _) = Multiset.filter _ _
    rw [Multiset.filter_filter]
    apply Multiset.filter_congr
    intro e he
    rw [repoOf_deleteSymbols_of_ne hgone h, and_iff_left_iff_imp]
    intro hsource
    obtain ⟨owner, hsource', htarget⟩ := hclosed e he
    obtain rfl : owner = other := Option.some.inj (hsource'.symm.trans hsource)
    have hkept {id : String} (hid : db.repoOf id = some owner) :
        (db.symbols.filter (!gone ·)).get id ≠ none := by
      have hleft := (repoOf_deleteSymbols_of_ne hgone h).mpr hid
      intro hnone
      unfold repoOf Database.deleteSymbols at hleft
      rw [hnone] at hleft
      cases hleft
    exact ⟨hkept hsource, hkept htarget⟩
  exact congrArg₂ (Store.mk · · [] []) hsymbols hedges

omit hgone in
/-- On the view of a repository, a deletion is one of its store. -/
theorem view_deleteSymbols (hclosed : db.Closed) :
    (db.deleteSymbols gone).view repo = (db.view repo).deleteSymbols gone := by
  have hsymbols : ((db.deleteSymbols gone).view repo).symbols =
      (db.view repo).symbols.filter (!gone ·) := by
    apply Table.ext_get
    intro id
    rw [Table.get_filter, get_view, get_view, deleteSymbols, Table.get_filter,
      Option.filter_filter, Option.filter_filter]
    congr 1
    funext row
    exact Bool.and_comm _ _
  have hend (id : String) : ((db.view repo).symbols.filter (!gone ·)).get id ≠ none ↔
      (db.deleteSymbols gone).repoOf id = some repo := by
    rw [← hsymbols, get_view_ne_none]
  have hkept {id : String} (hid : (db.deleteSymbols gone).repoOf id = some repo) :
      (db.symbols.filter (!gone ·)).get id ≠ none := by
    intro hnone
    unfold repoOf deleteSymbols at hid
    rw [hnone] at hid
    cases hid
  have hedges : ((db.deleteSymbols gone).view repo).edges =
      (db.view repo).edges.filter (Store.HasEnds ((db.view repo).symbols.filter (!gone ·))) := by
    show Multiset.filter _ (Multiset.filter _ _) = Multiset.filter _ (Multiset.filter _ _)
    rw [Multiset.filter_filter, Multiset.filter_filter]
    apply Multiset.filter_congr
    intro e he
    obtain ⟨owner, hsource, htarget⟩ := hclosed e he
    unfold Store.HasEnds
    rw [hend, hend]
    constructor
    · rintro ⟨hrepo, hends⟩
      rw [repoOf_of_deleteSymbols hends.1, hsource] at hrepo
      rw [repoOf_of_deleteSymbols hends.1, repoOf_of_deleteSymbols hends.2, hsource, htarget]
      exact ⟨⟨hrepo, hrepo⟩, hrepo⟩
    · rintro ⟨⟨hrepo, hrepo'⟩, -⟩
      exact ⟨hrepo, hkept hrepo, hkept hrepo'⟩
  exact congrArg₂ (Store.mk · · [] []) hsymbols hedges

omit hgone in
/-- Where no symbol is to be deleted, nothing is. -/
theorem deleteSymbols_eq_self (hclosed : db.Closed)
    (h : ∀ id row, db.symbols.get id = some row → gone row = false) :
    db.deleteSymbols gone = db := by
  have hsymbols : db.symbols.filter (!gone ·) = db.symbols :=
    Table.filter_eq_self fun id row hrow ↦ by rw [h id row hrow, Bool.not_false]
  have hedges : db.edges.filter (Store.HasEnds db.symbols) = db.edges := by
    refine Multiset.filter_eq_self.mpr ?_
    intro e he
    obtain ⟨owner, hsource, htarget⟩ := hclosed e he
    exact ⟨fun hnone ↦ by simp [repoOf, hnone] at hsource,
      fun hnone ↦ by simp [repoOf, hnone] at htarget⟩
  unfold deleteSymbols
  simp only [hsymbols, hedges]

end DeleteSymbols

/-! ### Inserting -/

/-- The records are the repository's, and so are the symbols that have one of their ids. -/
def Own (db : Database) (repo : String) (records : List (String × Row)) : Prop :=
  ∀ record ∈ records, record.2.repo = repo ∧
    ∀ row, db.symbols.get record.1 = some row → row.repo = repo

theorem Own.of_dictGet {records : List (String × Row)} (h : db.Own repo records) {id : String}
    {new : Row} (hget : dictGet records id = some new) :
    new.repo = repo ∧ ∀ row, db.symbols.get id = some row → row.repo = repo :=
  h _ (mem_of_dictGet hget)

section InsertSymbols

variable {records : List (String × Row)} (hown : db.Own repo records)

include hown

theorem repoOf_insertSymbols {id owner : String} (h : db.repoOf id = some owner) :
    (db.insertSymbols records).repoOf id = some owner := by
  obtain ⟨row, hrow, hrepo⟩ := Option.map_eq_some_iff.mp h
  unfold repoOf insertSymbols
  rw [Table.get_upsertAll]
  cases hget : dictGet records id with
  | none => simp [hrow, hrepo]
  | some new =>
    obtain ⟨hnew, hold⟩ := hown.of_dictGet hget
    simp [hnew, ← hrepo, hold row hrow]

theorem Closed.insertSymbols (h : db.Closed) : (db.insertSymbols records).Closed := by
  intro e he
  obtain ⟨owner, hsource, htarget⟩ := h e he
  exact ⟨owner, repoOf_insertSymbols hown hsource, repoOf_insertSymbols hown htarget⟩

/-- Edges do not change their repository. -/
theorem edges_view_insertSymbols (hclosed : db.Closed) (other : String) :
    ((db.insertSymbols records).view other).edges = (db.view other).edges := by
  apply Multiset.filter_congr
  intro e he
  obtain ⟨owner, hsource, -⟩ := hclosed e he
  rw [repoOf_insertSymbols hown hsource, hsource]

theorem view_insertSymbols_of_ne (hclosed : db.Closed) (h : other ≠ repo) :
    (db.insertSymbols records).view other = db.view other := by
  have hsymbols : ((db.insertSymbols records).view other).symbols = (db.view other).symbols := by
    apply Table.ext_get
    intro id
    rw [get_view, get_view, insertSymbols, Table.get_upsertAll]
    cases hget : dictGet records id with
    | none => rfl
    | some new =>
      obtain ⟨hnew, hold⟩ := hown.of_dictGet hget
      have hne : repo ≠ other := Ne.symm h
      cases hrow : db.symbols.get id with
      | none => simp [Option.filter, hnew, hne]
      | some row => simp [Option.filter, hnew, hold row hrow, hne]
  exact congrArg₂ (Store.mk · · [] []) hsymbols (edges_view_insertSymbols hown hclosed other)

theorem view_insertSymbols (hclosed : db.Closed) :
    (db.insertSymbols records).view repo =
      { db.view repo with symbols := (db.view repo).symbols.upsertAll records } := by
  have hsymbols : ((db.insertSymbols records).view repo).symbols =
      (db.view repo).symbols.upsertAll records := by
    apply Table.ext_get
    intro id
    rw [get_view, insertSymbols, Table.get_upsertAll, Table.get_upsertAll, get_view]
    cases hget : dictGet records id with
    | none => rfl
    | some new => simp [Option.filter, (hown.of_dictGet hget).1]
  exact congrArg₂ (Store.mk · · [] []) hsymbols (edges_view_insertSymbols hown hclosed repo)

end InsertSymbols

/-- Both ends of the edges are symbols of the repository. -/
def HasEnds (db : Database) (repo : String) (records : List Edge) : Prop :=
  ∀ e ∈ records, db.repoOf e.source = some repo ∧ db.repoOf e.target = some repo

section InsertEdges

variable {records : List Edge} (hends : db.HasEnds repo records)

include hends

theorem Closed.insertEdges (h : db.Closed) : (db.insertEdges records).Closed := by
  intro e he
  rcases Multiset.mem_add.mp he with he | he
  · exact h e he
  · exact ⟨repo, hends e (Multiset.mem_coe.mp he)⟩

theorem view_insertEdges_of_ne (h : other ≠ repo) :
    (db.insertEdges records).view other = db.view other := by
  have hedges : (db.edges + ↑records).filter (db.repoOf ·.source = some other) =
      db.edges.filter (db.repoOf ·.source = some other) := by
    rw [Multiset.filter_add, add_eq_left, Multiset.filter_eq_nil]
    intro e he hother
    exact h (Option.some.inj (hother.symm.trans (hends e (Multiset.mem_coe.mp he)).1))
  exact congrArg (Store.mk _ · [] []) hedges

theorem view_insertEdges :
    (db.insertEdges records).view repo = (db.view repo).addEdges records := by
  have hedges : (db.edges + ↑records).filter (db.repoOf ·.source = some repo) =
      db.edges.filter (db.repoOf ·.source = some repo) + ↑records := by
    rw [Multiset.filter_add, add_right_inj, Multiset.filter_eq_self]
    intro e he
    exact (hends e (Multiset.mem_coe.mp he)).1
  exact congrArg (Store.mk _ · [] []) hedges

end InsertEdges

/-- Definitions of a view resolve to edges of the repository. -/
theorem hasEnds_resolvedEdges (relationships : List Relationship) :
    db.HasEnds repo (resolvedEdges (definitions (db.view repo).symbols) relationships) := by
  intro e he
  obtain ⟨hsource, htarget⟩ := hasEnds_of_mem_resolvedEdges he
  exact ⟨get_view_ne_none.mp hsource, get_view_ne_none.mp htarget⟩

end Database

open Database

/-! ### What a call keeps -/

/-- The database during a call on a repository that writes these records: the views of the other
repositories are those at its start, and so are the marks until the end. -/
structure Framed (start : Database) (repo : String) (records : List (String × Row))
    (db : Database) : Prop where
  closed : db.Closed
  own : db.Own repo records
  others : ∀ other ≠ repo, db.view other = start.view other
  commits : db.commits = start.commits

namespace Framed

variable {start db : Database} {repo : String} {records : List (String × Row)}

theorem deleteEdges (h : Framed start repo records db) (kind : RelationshipKind) :
    Framed start repo records (db.deleteEdges repo kind) where
  closed := h.closed.of_edges (Multiset.filter_le _ _)
  own := h.own
  others other hne := (view_deleteEdges_of_ne hne kind).trans (h.others other hne)
  commits := h.commits

theorem deleteFileEdges (h : Framed start repo records db) (filepath : String)
    (kind : RelationshipKind) :
    Framed start repo records (db.deleteFileEdges repo filepath kind) where
  closed := h.closed.of_edges (Multiset.filter_le _ _)
  own := h.own
  others other hne := (view_deleteFileEdges_of_ne hne filepath kind).trans (h.others other hne)
  commits := h.commits

theorem deleteSymbols (h : Framed start repo records db) {gone : Row → Bool}
    (hgone : ∀ row, gone row = true → row.repo = repo) :
    Framed start repo records (db.deleteSymbols gone) where
  closed := h.closed.deleteSymbols
  own record hrecord := by
    refine ⟨(h.own record hrecord).1, ?_⟩
    intro row hrow
    unfold Database.deleteSymbols at hrow
    rw [Table.get_filter, Option.filter_eq_some_iff] at hrow
    exact (h.own record hrecord).2 row hrow.1
  others other hne := (view_deleteSymbols_of_ne hgone h.closed hne).trans (h.others other hne)
  commits := h.commits

theorem insertSymbols (h : Framed start repo records db) {batch : List (String × Row)}
    (hbatch : ∀ record ∈ batch, record ∈ records) :
    Framed start repo records (db.insertSymbols batch) := by
  have hown : db.Own repo batch := fun record hrecord ↦ h.own record (hbatch record hrecord)
  refine ⟨h.closed.insertSymbols hown, ?_, ?_, h.commits⟩
  · intro record hrecord
    refine ⟨(h.own record hrecord).1, ?_⟩
    intro row hrow
    unfold Database.insertSymbols at hrow
    rw [Table.get_upsertAll] at hrow
    rcases Option.or_eq_some_iff.mp hrow with hrow | ⟨-, hrow⟩
    · exact (hown.of_dictGet hrow).1
    · exact (h.own record hrecord).2 row hrow
  · intro other hne
    exact (view_insertSymbols_of_ne hown h.closed hne).trans (h.others other hne)

theorem insertEdges (h : Framed start repo records db) {batch : List Edge}
    (hends : db.HasEnds repo batch) : Framed start repo records (db.insertEdges batch) where
  closed := h.closed.insertEdges hends
  own := h.own
  others other hne := (view_insertEdges_of_ne hends hne).trans (h.others other hne)
  commits := h.commits

end Framed

end GithubAgent.Indexing
