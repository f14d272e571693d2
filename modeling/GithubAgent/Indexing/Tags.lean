import GithubAgent.Indexing.CodeGraph
import GithubAgent.Indexing.Pairing

/-!
# The tags of a source file

`RepoMap._get_tags_treesitter` of `src/shared/repomap.py`: the definitions and the references that
the queries of a language capture, with one tag for the definitions of each name and category.
-/

namespace GithubAgent.Indexing

open GithubAgent.Base

/-! ### The tags -/

/-- What the queries of the language capture in a file, with their categories. -/
structure TagCaptures where
  definitionQueries : List (String × QueryCaptures)
  referenceQueries : List (String × QueryCaptures)

/-- A match that has a node, as a definition. -/
def capturedDefinition (path category : String) (m : TsMatch) : Option Tag :=
  match m.place with
  | .node startLine endLine => some
      { filepath := path
        name := m.name
        kind := .definition
        line := startLine
        category
        endLine }
  | .line _ => none

def capturedDefinitions (path : String) (file : TagCaptures) : List Tag :=
  file.definitionQueries.flatMap fun (category, c) ↦
    (runTsQuery c).filterMap (capturedDefinition path category)

/-- The definitions that get a tag: those with a name (`repomap.py:201-224`). -/
def definitionTags (path : String) (file : TagCaptures) : List Tag :=
  (capturedDefinitions path file).filter (·.name ≠ "")

namespace Tag

/-- The key of `deduped`. -/
def definitionKey (tag : Tag) : String × String × String := (tag.name, tag.category, tag.filepath)

/-- The lines from the first to the last one. -/
def span (tag : Tag) : Int := tag.endLine - tag.line

end Tag

/-- A step of the deduplication: of two definitions with one key the wider is kept, the first one if
they are as wide, at the place of the first (`repomap.py:230-241`). -/
def keepWidest (deduped : List Tag) (tag : Tag) : List Tag :=
  if ∃ existing ∈ deduped, existing.definitionKey = tag.definitionKey then
    deduped.map fun existing ↦
      if existing.definitionKey = tag.definitionKey ∧ existing.span < tag.span then tag
      else existing
  else deduped ++ [tag]

def dedupDefinitions (tags : List Tag) : List Tag := tags.foldl keepWidest []

/-- A match without a node, as a reference, unless a definition stands there
(`repomap.py:245-265`). -/
def capturedReference (path category : String) (definitions : List Tag) (m : TsMatch) :
    Option Tag :=
  match m.place with
  | .node _ _ => none
  | .line line =>
    if m.name = "" ∨ (m.name, line) ∈ definitions.map fun t ↦ (t.name, t.line) then none
    else some
      { filepath := path
        name := m.name
        kind := .reference
        line
        category }

def referenceTags (path : String) (file : TagCaptures) (definitions : List Tag) : List Tag :=
  file.referenceQueries.flatMap fun (category, c) ↦
    (runTsQuery c).filterMap (capturedReference path category definitions)

/-- `_get_tags_treesitter` on a file that was parsed (`repomap.py:182-269`). -/
def getTagsTreesitter (path : String) (file : TagCaptures) : Option (List Tag) :=
  let definitions := dedupDefinitions (definitionTags path file)
  let tags := definitions ++ referenceTags path file definitions
  if tags = [] then none else some tags

/-! ### What is kept -/

/-- What is kept of some definitions: one of each key, which is as wide as any. -/
structure KeepsWidest (tags deduped : List Tag) : Prop where
  subset : ∀ k ∈ deduped, k ∈ tags
  once : (deduped.map Tag.definitionKey).Nodup
  all : ∀ d ∈ tags, ∃ k ∈ deduped, k.definitionKey = d.definitionKey
  widest : ∀ k ∈ deduped, ∀ d ∈ tags, d.definitionKey = k.definitionKey → d.span ≤ k.span

/-- A definition with a new key. -/
theorem KeepsWidest.append {tags deduped : List Tag} (h : KeepsWidest tags deduped) {tag : Tag}
    (hnew : ¬ ∃ existing ∈ deduped, existing.definitionKey = tag.definitionKey) :
    KeepsWidest (tags ++ [tag]) (deduped ++ [tag]) where
  subset k hk := List.mem_append.mpr ((List.mem_append.mp hk).imp_left (h.subset k))
  once := by
    rw [List.map_append, List.nodup_append]
    refine ⟨h.once, List.nodup_singleton _, fun key hkey key' hkey' heq ↦ ?_⟩
    obtain ⟨k, hk, rfl⟩ := List.mem_map.mp hkey
    obtain rfl := List.mem_singleton.mp hkey'
    exact hnew ⟨k, hk, heq⟩
  all d hd := by
    rcases List.mem_append.mp hd with hd | hd
    · obtain ⟨k, hk, hkd⟩ := h.all d hd
      exact ⟨k, List.mem_append_left _ hk, hkd⟩
    · obtain rfl := List.mem_singleton.mp hd
      exact ⟨d, List.mem_append_right _ List.mem_cons_self, rfl⟩
  widest k hk d hd hdk := by
    rcases List.mem_append.mp hk with hk | hk
    · rcases List.mem_append.mp hd with hd | hd
      · exact h.widest k hk d hd hdk
      · exact absurd ⟨k, hk, hdk.symm.trans (congrArg _ (List.mem_singleton.mp hd))⟩ hnew
    · rcases List.mem_append.mp hd with hd | hd
      · obtain ⟨existing, hexisting, heq⟩ := h.all d hd
        refine absurd ⟨existing, hexisting, heq.trans (hdk.trans ?_)⟩ hnew
        exact congrArg _ (List.mem_singleton.mp hk)
      · rw [List.mem_singleton.mp hd, List.mem_singleton.mp hk]

/-- What a definition with a key that was seen makes of a kept one. -/
def widerOf (tag existing : Tag) : Tag :=
  if existing.definitionKey = tag.definitionKey ∧ existing.span < tag.span then tag else existing

theorem definitionKey_widerOf (tag existing : Tag) :
    (widerOf tag existing).definitionKey = existing.definitionKey := by
  unfold widerOf
  split
  · next h => exact h.1.symm
  · rfl

theorem span_le_widerOf (tag existing : Tag) : existing.span ≤ (widerOf tag existing).span := by
  unfold widerOf
  split
  · next h => exact h.2.le
  · exact le_rfl

theorem KeepsWidest.replace {tags deduped : List Tag} (h : KeepsWidest tags deduped) {tag : Tag}
    (hfound : ∃ existing ∈ deduped, existing.definitionKey = tag.definitionKey) :
    KeepsWidest (tags ++ [tag]) (deduped.map (widerOf tag)) where
  subset k hk := by
    obtain ⟨existing, hexisting, rfl⟩ := List.mem_map.mp hk
    unfold widerOf
    split
    · exact List.mem_append_right _ List.mem_cons_self
    · exact List.mem_append_left _ (h.subset existing hexisting)
  once := by
    have hmap : (deduped.map (widerOf tag)).map Tag.definitionKey =
        deduped.map Tag.definitionKey := by
      rw [List.map_map]
      exact List.map_congr_left fun k _ ↦ definitionKey_widerOf tag k
    exact hmap ▸ h.once
  all d hd := by
    have hkey : ∃ k ∈ deduped, k.definitionKey = d.definitionKey := by
      rcases List.mem_append.mp hd with hd | hd
      · exact h.all d hd
      · exact List.mem_singleton.mp hd ▸ hfound
    obtain ⟨k, hk, hkd⟩ := hkey
    exact ⟨widerOf tag k, List.mem_map.mpr ⟨k, hk, rfl⟩, (definitionKey_widerOf tag k).trans hkd⟩
  widest k hk d hd hdk := by
    obtain ⟨existing, hexisting, rfl⟩ := List.mem_map.mp hk
    rw [definitionKey_widerOf] at hdk
    rcases List.mem_append.mp hd with hd | hd
    · exact (h.widest existing hexisting d hd hdk).trans (span_le_widerOf tag existing)
    · obtain rfl := List.mem_singleton.mp hd
      unfold widerOf
      split
      · exact le_rfl
      · next hnot => exact not_lt.mp fun hlt ↦ hnot ⟨hdk.symm, hlt⟩

theorem KeepsWidest.keepWidest {tags deduped : List Tag} (h : KeepsWidest tags deduped)
    (tag : Tag) : KeepsWidest (tags ++ [tag]) (keepWidest deduped tag) := by
  unfold Indexing.keepWidest
  split
  · next hfound => exact h.replace hfound
  · next hnew => exact h.append hnew

theorem keepsWidest_dedupDefinitions (tags : List Tag) :
    KeepsWidest tags (dedupDefinitions tags) := by
  have hrun : ∀ (rest before deduped : List Tag), KeepsWidest before deduped →
      KeepsWidest (before ++ rest) (rest.foldl keepWidest deduped) := by
    intro rest
    induction rest with
    | nil =>
      intro before deduped h
      rwa [List.append_nil]
    | cons tag rest ih =>
      intro before deduped h
      rw [List.foldl_cons, ← List.singleton_append, ← List.append_assoc]
      exact ih _ _ (h.keepWidest tag)
  exact hrun tags [] [] ⟨nofun, List.nodup_nil, nofun, nofun⟩

theorem kind_of_mem_definitionTags {path : String} {file : TagCaptures} {d : Tag}
    (h : d ∈ definitionTags path file) :
    d ∈ capturedDefinitions path file ∧ d.kind = .definition ∧ d.filepath = path := by
  refine ⟨(List.mem_filter.mp h).1, ?_⟩
  obtain ⟨⟨category, c⟩, -, h⟩ := List.mem_flatMap.mp (List.mem_filter.mp h).1
  obtain ⟨m, -, h⟩ := List.mem_filterMap.mp h
  unfold capturedDefinition at h
  split at h
  · obtain rfl := Option.some.inj h
    exact ⟨rfl, rfl⟩
  · cases h

theorem kind_of_mem_referenceTags {path : String} {file : TagCaptures} {definitions : List Tag}
    {t : Tag} (h : t ∈ referenceTags path file definitions) :
    t.kind = .reference ∧ t.filepath = path := by
  obtain ⟨⟨category, c⟩, -, h⟩ := List.mem_flatMap.mp h
  obtain ⟨m, -, h⟩ := List.mem_filterMap.mp h
  unfold capturedReference at h
  split at h
  · cases h
  · split at h
    · cases h
    · obtain rfl := Option.some.inj h
      exact ⟨rfl, rfl⟩

theorem getD_getTagsTreesitter (path : String) (file : TagCaptures) :
    (getTagsTreesitter path file).getD [] = dedupDefinitions (definitionTags path file) ++
      referenceTags path file (dedupDefinitions (definitionTags path file)) := by
  unfold getTagsTreesitter
  dsimp only
  split
  · next hempty => rw [hempty, Option.getD_none]
  · rw [Option.getD_some]

theorem mem_definitions_iff {path : String} {file : TagCaptures} {t : Tag}
    (hkind : t.kind = .definition) :
    t ∈ (getTagsTreesitter path file).getD [] ↔
      t ∈ dedupDefinitions (definitionTags path file) := by
  rw [getD_getTagsTreesitter, List.mem_append]
  refine or_iff_left fun href ↦ ?_
  cases hkind.symm.trans (kind_of_mem_referenceTags href).1

/-! ### Definitions that disappear -/

namespace Tag

/-- A tag for a definition: of its name and category, with lines around those of the definition. -/
structure IsFor (tag d : Tag) : Prop where
  kind : tag.kind = .definition
  key : tag.definitionKey = d.definitionKey
  start : tag.line ≤ d.line
  finish : d.endLine ≤ tag.endLine

def Disjoint (d d' : Tag) : Prop := d.endLine < d'.line ∨ d'.endLine < d.line

end Tag

/-- There is a tag for every captured definition; where definitions with one name and category are
merged, it has the lines of all of them, and those that have no line in common have a tag each. -/
structure NoneDisappears (path : String) (file : TagCaptures) : Prop where
  merged : ∀ d ∈ capturedDefinitions path file, ∃ tag ∈ (getTagsTreesitter path file).getD [],
    tag.IsFor d
  separate : ∀ d ∈ capturedDefinitions path file, ∀ d' ∈ capturedDefinitions path file,
    d.definitionKey = d'.definitionKey → d.Disjoint d' →
    ∃ tag ∈ (getTagsTreesitter path file).getD [], ∃ tag' ∈ (getTagsTreesitter path file).getD [],
      tag ≠ tag' ∧ tag.IsFor d ∧ tag'.IsFor d'

/-- The captured definitions have names, and of those with one name and category any two have a
line in common and one has the lines of all. -/
structure OverlapsByName (path : String) (file : TagCaptures) : Prop where
  named : ∀ d ∈ capturedDefinitions path file, d.name ≠ ""
  common : ∀ d ∈ capturedDefinitions path file, ∀ d' ∈ capturedDefinitions path file,
    d.definitionKey = d'.definitionKey → ¬ d.Disjoint d'
  around : ∀ d ∈ capturedDefinitions path file, ∃ k ∈ capturedDefinitions path file,
    k.definitionKey = d.definitionKey ∧ ∀ d' ∈ capturedDefinitions path file,
      d'.definitionKey = d.definitionKey → k.line ≤ d'.line ∧ d'.endLine ≤ k.endLine

/-- Tags with one key are the same. -/
theorem eq_of_definitionKey {path : String} {file : TagCaptures} {tag tag' : Tag}
    (htag : tag ∈ (getTagsTreesitter path file).getD [])
    (htag' : tag' ∈ (getTagsTreesitter path file).getD []) (hkind : tag.kind = .definition)
    (hkind' : tag'.kind = .definition) (hkey : tag.definitionKey = tag'.definitionKey) :
    tag = tag' :=
  List.inj_on_of_nodup_map (keepsWidest_dedupDefinitions _).once
    ((mem_definitions_iff hkind).mp htag) ((mem_definitions_iff hkind').mp htag') hkey

theorem noneDisappears_iff (path : String) (file : TagCaptures) :
    NoneDisappears path file ↔ OverlapsByName path file := by
  have hkept := keepsWidest_dedupDefinitions (definitionTags path file)
  constructor
  · intro h
    have hcaptured : ∀ tag ∈ (getTagsTreesitter path file).getD [], tag.kind = .definition →
        tag ∈ definitionTags path file := fun tag htag hkind ↦
      hkept.subset tag ((mem_definitions_iff hkind).mp htag)
    refine ⟨fun d hd ↦ ?_, fun d hd d' hd' hkey hdisjoint ↦ ?_, fun d hd ↦ ?_⟩
    · obtain ⟨tag, htag, hfor⟩ := h.merged d hd
      have hname : tag.name = d.name := congrArg Prod.fst hfor.key
      rw [← hname]
      exact of_decide_eq_true (List.mem_filter.mp (hcaptured tag htag hfor.kind)).2
    · obtain ⟨tag, htag, tag', htag', hne, hfor, hfor'⟩ := h.separate d hd d' hd' hkey hdisjoint
      exact hne (eq_of_definitionKey htag htag' hfor.kind hfor'.kind
        (hfor.key.trans (hkey.trans hfor'.key.symm)))
    · obtain ⟨tag, htag, hfor⟩ := h.merged d hd
      refine ⟨tag, (kind_of_mem_definitionTags (hcaptured tag htag hfor.kind)).1, hfor.key,
        fun d' hd' hkey ↦ ?_⟩
      obtain ⟨tag', htag', hfor'⟩ := h.merged d' hd'
      obtain rfl := eq_of_definitionKey htag htag' hfor.kind hfor'.kind
        (hfor.key.trans (hkey.symm.trans hfor'.key.symm))
      exact ⟨hfor'.start, hfor'.finish⟩
  · intro h
    have htags : ∀ d ∈ capturedDefinitions path file, d ∈ definitionTags path file :=
      fun d hd ↦ List.mem_filter.mpr ⟨hd, decide_eq_true (h.named d hd)⟩
    refine ⟨fun d hd ↦ ?_, fun d hd d' hd' hkey hdisjoint ↦
      absurd hdisjoint (h.common d hd d' hd' hkey)⟩
    obtain ⟨tag, htag, hkey⟩ := hkept.all d (htags d hd)
    obtain ⟨k, hk, hkkey, haround⟩ := h.around d hd
    have hmem := hkept.subset tag htag
    obtain ⟨hcaptured, hkind, -⟩ := kind_of_mem_definitionTags hmem
    -- the kept one is as wide as the one that has the lines of all, and among these lines
    have hwide := hkept.widest tag htag k (htags k hk) (hkkey.trans hkey.symm)
    obtain ⟨hstart, hend⟩ := haround tag hcaptured hkey
    obtain ⟨hstart', hend'⟩ := haround d hd rfl
    unfold Tag.span at hwide
    refine ⟨tag, (mem_definitions_iff hkind).mpr htag, hkind, hkey, ?_, ?_⟩
    · omega
    · omega

/-- Two classes, in lines 1 to 3 and 4 to 6, with a method `run` each. -/
def twoMethods : TagCaptures where
  definitionQueries :=
    [("function",
      { names := [⟨⟨17, 20, 2, 2⟩, "run"⟩, ⟨⟨58, 61, 5, 5⟩, "run"⟩]
        nodes := [⟨13, 40, 2, 3⟩, ⟨54, 81, 5, 6⟩]
        targets := [] })]
  referenceQueries := []

/-- Only one of the methods has a tag. -/
theorem not_noneDisappears_twoMethods : ¬ NoneDisappears "app.py" twoMethods := by
  intro h
  obtain ⟨tag, htag, tag', htag', hne, hfor, hfor'⟩ := h.separate
    ⟨"app.py", "run", .definition, 2, "function", 3⟩ (by decide)
    ⟨"app.py", "run", .definition, 5, "function", 6⟩ (by decide) rfl (.inl (by decide))
  exact hne (eq_of_definitionKey htag htag' hfor.kind hfor'.kind (hfor.key.trans hfor'.key.symm))

/-! ### The extraction -/

/-- What the queries capture in the files of known languages, and the tags that are found by
regular expressions in the others (`repomap.py:158-180`). -/
structure Tagger where
  captures : String → String → Option TagCaptures
  regexTags : String → String → List Tag
  filepath_regexTags : ∀ path content, ∀ t ∈ regexTags path content, t.filepath = path

namespace Tagger

variable (p : Tagger)

/-- `_get_tags`. -/
def fileTags (path content : String) : List Tag :=
  ((p.captures path content).bind (getTagsTreesitter path)).getD (p.regexTags path content)

theorem filepath_fileTags (path content : String) (t : Tag) (h : t ∈ p.fileTags path content) :
    t.filepath = path := by
  unfold fileTags at h
  cases hcaptures : p.captures path content with
  | none =>
    rw [hcaptures] at h
    exact p.filepath_regexTags path content t h
  | some file =>
    rw [hcaptures, Option.bind_some] at h
    cases htags : getTagsTreesitter path file with
    | none =>
      rw [htags] at h
      exact p.filepath_regexTags path content t h
    | some tags =>
      have hmem : t ∈ (getTagsTreesitter path file).getD [] := by
        rw [htags] at h ⊢
        exact h
      rw [getD_getTagsTreesitter] at hmem
      rcases List.mem_append.mp hmem with hmem | hmem
      · exact (kind_of_mem_definitionTags ((keepsWidest_dedupDefinitions _).subset t hmem)).2.2
      · exact (kind_of_mem_referenceTags hmem).2

/-- An extraction that takes its tags from the captures. -/
def extraction (x : Extraction) : Extraction :=
  { x with
    fileTags := p.fileTags
    filepath_tags := p.filepath_fileTags }

end Tagger

end GithubAgent.Indexing
