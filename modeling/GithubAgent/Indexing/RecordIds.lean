import GithubAgent.Base.LastBy
import GithubAgent.Base.Separators
import GithubAgent.Indexing.CodeGraph

/-!
# The record ids of symbols

The ids that `_upsert_symbols` of `src/shared/code_graph.py` and `_symbol_id` of
`src/services/indexing_worker/indexing_worker.py` give to a tag and to a chunk: both digest the
repository, the path, the kind, the name and the line, with colons between them.
-/

namespace GithubAgent.Indexing

open GithubAgent.Base

variable (digest : String → String) (repo : String)

/-- `raw_key` (`code_graph.py:1275`, `indexing_worker.py:309`). -/
def rawKey (filepath kind name : String) (line : Nat) : String :=
  repo ++ ":" ++ filepath ++ ":" ++ kind ++ ":" ++ name ++ ":" ++ toString line

def Tag.rawKey (t : Tag) : String := Indexing.rawKey repo t.filepath t.kind.value t.name t.line

def Chunk.rawKey (c : Chunk) : String :=
  Indexing.rawKey repo c.filepath c.kind.value c.name c.startLine

theorem Tag.row_fst (t : Tag) : (t.row digest repo).1 = digest (t.rawKey repo) := rfl

theorem Chunk.row_fst (c : Chunk) : (c.row digest repo).1 = digest (c.rawKey repo) := rfl

/-- The texts that the ids of the tags and the chunks are digests of. -/
def rawKeys (tags : List Tag) (chunks : List Chunk) : Set String :=
  {key | (∃ t ∈ tags, t.rawKey repo = key) ∨ ∃ c ∈ chunks, c.rawKey repo = key}

/-! ### When two texts are the same -/

/-- The path of one symbol has the path and the kind of the other one and a part of its name, and
what is left of that name has the kind and the name of the first: `x:definition:y` with the name
`z`, and `x` with the name `y:definition:z`. -/
def ContinuesPath (filepath kind name filepath' kind' name' : String) : Prop :=
  Continues ':' filepath.toList kind.toList name.toList
    filepath'.toList kind'.toList name'.toList

theorem ContinuesPath.ne {filepath kind name filepath' kind' name' : String}
    (h : ContinuesPath filepath kind name filepath' kind' name') : filepath ≠ filepath' := by
  rintro rfl
  obtain ⟨w, hpath, -⟩ := h
  have hlength := congrArg List.length hpath
  simp only [List.length_append, List.length_cons, List.length_nil] at hlength
  omega

theorem toList_rawKey (filepath kind name : String) (line : Nat) :
    (rawKey repo filepath kind name line).toList =
      (repo.toList ++ ':' :: (filepath.toList ++ ':' :: (kind.toList ++ ':' :: name.toList))) ++
        ':' :: (toString line).toList := by
  simp [rawKey]

/-- The texts are the same when all fields but the repository are, or when the lines are and one
path continues the other. -/
theorem rawKey_eq_iff {filepath kind name filepath' kind' name' : String} {line line' : Nat}
    (hkind : ':' ∉ kind.toList) (hkind' : ':' ∉ kind'.toList) :
    rawKey repo filepath kind name line = rawKey repo filepath' kind' name' line' ↔
      line = line' ∧ ((filepath = filepath' ∧ kind = kind' ∧ name = name') ∨
        ContinuesPath filepath kind name filepath' kind' name' ∨
          ContinuesPath filepath' kind' name' filepath kind name) := by
  rw [← String.toList_inj, toList_rawKey, toList_rawKey]
  have hfields : filepath.toList ++ ':' :: (kind.toList ++ ':' :: name.toList) =
      filepath'.toList ++ ':' :: (kind'.toList ++ ':' :: name'.toList) ↔ _ :=
    append_field_eq_iff hkind hkind'
  rw [String.toList_inj, String.toList_inj, String.toList_inj] at hfields
  constructor
  · intro h
    obtain ⟨hbefore, hline⟩ := append_cons_inj_last (notMem_toString line (by decide))
      (notMem_toString line' (by decide)) h
    have hrest := List.append_cancel_left hbefore
    exact ⟨repr_injective (String.toList_inj.mp hline), hfields.mp (List.cons.inj hrest).2⟩
  · rintro ⟨rfl, h⟩
    rw [hfields.mpr h]

theorem TagKind.colon_notMem (kind : TagKind) : ':' ∉ kind.value.toList := by
  cases kind <;> decide

theorem ChunkKind.colon_notMem (kind : ChunkKind) : ':' ∉ kind.value.toList := by
  cases kind <;> decide

theorem TagKind.value_injective {kind kind' : TagKind} (h : kind.value = kind'.value) :
    kind = kind' := by
  cases kind <;> cases kind' <;> first | rfl | exact absurd h (by decide)

/-- No kind of a chunk is the kind of a tag. -/
theorem ChunkKind.value_ne (kind : ChunkKind) (kind' : TagKind) : kind.value ≠ kind'.value := by
  cases kind <;> cases kind' <;> decide

/-- Two tags have the text of one id. -/
theorem Tag.rawKey_eq_iff {t t' : Tag} :
    t.rawKey repo = t'.rawKey repo ↔
      t.line = t'.line ∧ ((t.filepath = t'.filepath ∧ t.kind = t'.kind ∧ t.name = t'.name) ∨
        ContinuesPath t.filepath t.kind.value t.name t'.filepath t'.kind.value t'.name ∨
          ContinuesPath t'.filepath t'.kind.value t'.name t.filepath t.kind.value t.name) := by
  have hkind : t.kind.value = t'.kind.value ↔ t.kind = t'.kind :=
    ⟨TagKind.value_injective, congrArg TagKind.value⟩
  rw [Tag.rawKey, Tag.rawKey, Indexing.rawKey_eq_iff repo t.kind.colon_notMem
    t'.kind.colon_notMem, hkind]

/-- A chunk never has the text of the id of a tag with its path and its name. -/
theorem Chunk.rawKey_ne {c : Chunk} {t : Tag} (hpath : t.filepath = c.filepath) :
    c.rawKey repo ≠ t.rawKey repo := by
  intro h
  rw [Chunk.rawKey, Tag.rawKey, Indexing.rawKey_eq_iff repo c.kind.colon_notMem
    t.kind.colon_notMem] at h
  rcases h.2 with ⟨-, hkind, -⟩ | hcontinues | hcontinues
  · exact c.kind.value_ne t.kind hkind
  · exact hcontinues.ne hpath.symm
  · exact hcontinues.ne hpath

/-! ### What the ids identify -/

/-- The tag is the one of the definition that the chunk was made of. -/
def Chunk.IsOf (c : Chunk) (t : Tag) : Prop :=
  c.kind ≠ .module ∧ t.kind = .definition ∧ t.filepath = c.filepath ∧ t.name = c.name ∧
    t.line = c.startLine

instance (c : Chunk) (t : Tag) : Decidable (c.IsOf t) :=
  inferInstanceAs (Decidable (_ ∧ _))

/-- Tags that are kept as distinct get different ids, and the chunk of a definition gets the id of
its tag. -/
structure IdentifiesSymbols (tags : List Tag) (chunks : List Chunk) : Prop where
  distinct : ∀ t ∈ dedupBy Tag.key [] tags, ∀ t' ∈ dedupBy Tag.key [] tags, t.key ≠ t'.key →
    (t.row digest repo).1 ≠ (t'.row digest repo).1
  agree : ∀ c ∈ chunks, ∀ t ∈ tags, c.IsOf t → (c.row digest repo).1 = (t.row digest repo).1

/-- Two tags on a line are told apart by their paths, kinds and names. -/
def Tag.ToldApart (t t' : Tag) : Prop :=
  t.line = t'.line →
    (t.filepath = t'.filepath → t.kind = t'.kind → t.name = t'.name → t.category = t'.category) ∧
      ¬ ContinuesPath t.filepath t.kind.value t.name t'.filepath t'.kind.value t'.name

theorem Tag.rawKey_of_key {t t' : Tag} (h : t.key = t'.key) : t.rawKey repo = t'.rawKey repo := by
  simp only [Tag.key, Prod.mk.injEq] at h
  obtain ⟨hname, hkind, -, hpath, hline⟩ := h
  rw [Tag.rawKey, Tag.rawKey, hname, hkind, hpath, hline]

variable {repo}

/-- Tags that are told apart and have the text of one id have one key. -/
theorem Tag.key_eq_of_toldApart {t t' : Tag} (h : t.ToldApart t') (h' : t'.ToldApart t)
    (hraw : t.rawKey repo = t'.rawKey repo) : t.key = t'.key := by
  obtain ⟨hline, ⟨hpath, hkind, hname⟩ | hcontinues | hcontinues⟩ :=
    (Tag.rawKey_eq_iff repo).mp hraw
  · simp only [Tag.key, hname, hkind, (h hline).1 hpath hkind hname, hpath, hline]
  · exact absurd hcontinues (h hline).2
  · exact absurd hcontinues (h' hline.symm).2

/-- A tag is told apart from one that has another text, or the same key. -/
theorem Tag.toldApart_of_key {t t' : Tag}
    (h : t.rawKey repo = t'.rawKey repo → t.key = t'.key) : t.ToldApart t' := by
  rw [Tag.rawKey_eq_iff] at h
  intro hline
  constructor
  · intro hpath hkind hname
    exact congrArg (·.2.2.1) (h ⟨hline, .inl ⟨hpath, hkind, hname⟩⟩)
  · intro hcontinues
    exact hcontinues.ne (congrArg (·.2.2.2.1) (h ⟨hline, .inr (.inl hcontinues)⟩))

variable (repo)

/-- The ids identify the symbols when all tags are told apart and no chunk of a definition has
a tag: where the digest keeps the texts apart, a chunk never gets the id of its tag. -/
theorem identifiesSymbols_iff {tags : List Tag} {chunks : List Chunk}
    (hdigest : Set.InjOn digest (rawKeys repo tags chunks)) :
    IdentifiesSymbols digest repo tags chunks ↔
      (∀ t ∈ tags, ∀ t' ∈ tags, t.ToldApart t') ∧ ∀ c ∈ chunks, ∀ t ∈ tags, ¬ c.IsOf t := by
  have htag : ∀ t ∈ tags, t.rawKey repo ∈ rawKeys repo tags chunks := fun t ht ↦
    .inl ⟨t, ht, rfl⟩
  have hchunk : ∀ c ∈ chunks, c.rawKey repo ∈ rawKeys repo tags chunks := fun c hc ↦
    .inr ⟨c, hc, rfl⟩
  have hall : ∀ t ∈ tags, ∃ kept ∈ dedupBy Tag.key [] tags, kept.key = t.key := fun t ht ↦
    exists_mem_dedupBy ht List.not_mem_nil
  constructor
  · intro h
    refine ⟨fun t ht t' ht' ↦ ?_, fun c hc t ht hof ↦ ?_⟩
    · refine Tag.toldApart_of_key fun (hraw : t.rawKey repo = t'.rawKey repo) ↦ ?_
      obtain ⟨kept, hkept, hkey⟩ := hall t ht
      obtain ⟨kept', hkept', hkey'⟩ := hall t' ht'
      rw [← hkey, ← hkey']
      by_contra hne
      have hids : kept.rawKey repo = kept'.rawKey repo :=
        (Tag.rawKey_of_key repo hkey).trans (hraw.trans (Tag.rawKey_of_key repo hkey').symm)
      exact h.distinct kept hkept kept' hkept' hne (congrArg digest hids)
    · exact c.rawKey_ne repo hof.2.2.1 (hdigest (hchunk c hc) (htag t ht) (h.agree c hc t ht hof))
  · rintro ⟨hapart, hnone⟩
    refine ⟨fun t ht t' ht' hne hid ↦ hne ?_, fun c hc t ht hof ↦ absurd hof (hnone c hc t ht)⟩
    have hmem := mem_of_mem_dedupBy ht
    have hmem' := mem_of_mem_dedupBy ht'
    exact Tag.key_eq_of_toldApart (hapart t hmem t' hmem') (hapart t' hmem' t hmem)
      (hdigest (htag t hmem) (htag t' hmem') hid)

/-! ### A function on the first line -/

section Run

private def runTag : Tag where
  filepath := "app.py"
  name := "run"
  kind := .definition
  line := 1
  category := "function"
  endLine := 2

private def mainTag : Tag := { runTag with name := "main", line := 4, endLine := 5 }

private def runChunk : Chunk where
  filepath := "app.py"
  name := "run"
  kind := .function
  language := "python"
  startLine := 1
  endLine := 2
  content := "def run():\n    return 1"

/-- Two definitions without a chunk are identified. -/
theorem identifiesSymbols_twoFunctions : IdentifiesSymbols id "o/r" [runTag, mainTag] [] := by
  refine (identifiesSymbols_iff id "o/r" Function.injective_id.injOn).mpr ⟨?_, by simp⟩
  intro t ht t' ht' hline
  have heq : t = t' := by
    simp only [List.mem_cons, List.not_mem_nil, or_false] at ht ht'
    rcases ht with rfl | rfl <;> rcases ht' with rfl | rfl <;>
      first | rfl | exact absurd hline (by decide)
  subst heq
  exact ⟨fun _ _ _ ↦ rfl, fun hcontinues ↦ hcontinues.ne rfl⟩

/-- The chunk of a function gets another id than its tag. -/
theorem not_identifiesSymbols_function :
    ¬ IdentifiesSymbols id "o/r" [runTag] [runChunk] := by
  intro h
  have hof : runChunk.IsOf runTag := by decide
  exact runChunk.rawKey_ne "o/r" hof.2.2.1
    (h.agree runChunk List.mem_cons_self runTag List.mem_cons_self hof)

end Run

end GithubAgent.Indexing
