import GithubAgent.Base.RankFusion
import GithubAgent.Indexing.TextSearch

/-!
# Hybrid search

`_hybrid_search` and what `_semantic_search` makes of an answer, from
`src/mcp_servers/codebase_tools/tools.py`. The results of the text search and the answer of the
database are given.
-/

namespace GithubAgent.Mcp.HybridSearch

open GithubAgent.Base GithubAgent.Indexing

/-- Floats that are not negative: sums, and `1.0 / n`. -/
structure Floats (S : Type) [LinearOrder S] where
  zero : S
  add : S → S → S
  inverse : Nat → S
  add_le_add : ∀ {a b c d}, a ≤ b → c ≤ d → add a c ≤ add b d
  le_add_inverse : ∀ a n, a ≤ add a (inverse n)
  inverse_le : ∀ {m n}, 0 < m → m ≤ n → inverse n ≤ inverse m

/-- `_RRF_K` (`tools.py:44`). -/
def rrfK : Nat := 60

/-- A rank is worth `1.0 / (_RRF_K + rank)`. -/
def Floats.weighting {S : Type} [LinearOrder S] (f : Floats S) : Weighting S where
  zero := f.zero
  add := f.add
  weight rank := f.inverse (rrfK + rank)
  add_le_add := f.add_le_add
  le_add_weight a _ := f.le_add_inverse a _
  weight_le h := f.inverse_le (Nat.lt_add_right _ (by decide)) (Nat.add_le_add_left h rrfK)

/-! ### The semantic search -/

/-- A row of the answer, with its distance. -/
structure SymbolRow (D : Type) where
  filepath : String
  name : String
  kind : String
  line : Nat
  endLine : Nat
  content : Option String
  score : Option D

/-- An entry for a row (`tools.py:711-721`). -/
structure SemanticHit (D : Type) where
  file : String
  name : String
  kind : String
  line : Nat
  endLine : Nat
  content : Option String
  score : Option D
  contentTruncated : Bool
  deriving DecidableEq

def SemanticHit.place {D : Type} (h : SemanticHit D) : String × Nat := (h.file, h.line)

/-- `tools.py:706-710`. -/
def truncate (content : Option String) : Option String × Bool :=
  match content with
  | none => (none, false)
  | some content =>
    if 2000 < content.length then
      (some (String.ofList (content.toList.take 2000) ++ "\n... [truncated]"), true)
    else (some content, false)

def SymbolRow.hit {D : Type} (row : SymbolRow D) : SemanticHit D where
  file := row.filepath
  name := row.name
  kind := row.kind
  line := row.line
  endLine := row.endLine
  content := (truncate row.content).1
  score := row.score
  contentTruncated := (truncate row.content).2

section Collect

variable {D : Type} [LinearOrder D] (maxDistance : D) (maxResults : Nat)

/-- The row is not too far away. -/
def SymbolRow.near (row : SymbolRow D) : Bool :=
  match row.score with
  | some score => !decide (maxDistance < score)
  | none => true

/-- The loop over the rows (`tools.py:692-725`). -/
def collectRows (output : List (SemanticHit D)) : List (SymbolRow D) → List (SemanticHit D)
  | [] => output
  | row :: rest =>
    if row.near maxDistance then
      if maxResults ≤ output.length + 1 then output ++ [row.hit]
      else collectRows (output ++ [row.hit]) rest
    else collectRows output rest

/-- How the semantic search goes. -/
inductive Answer (D : Type) where
  | noPackage
  | noKey
  | emptyEmbedding
  | unreachable (url : String)
  | failed (error : String)
  | rows (rows : List (SymbolRow D))

/-- The text of an error entry. -/
def Answer.error? : Answer D → Option String
  | .noPackage => some "google-genai package is not installed. Semantic search requires it."
  | .noKey => some "GEMINI_API_KEY is not set. Semantic search requires it."
  | .emptyEmbedding => some "Gemini returned empty embedding for this query."
  | .unreachable url => some ("SurrealDB is not available at " ++ url ++
      ". Semantic search requires a running SurrealDB instance.")
  | .failed error => some ("Semantic search failed: " ++ error)
  | .rows _ => none

/-- `_semantic_search` (`tools.py:591-736`): error entries, or those of the rows. -/
def semanticSearch : Answer D → List (Except String (SemanticHit D))
  | .rows found => (collectRows maxDistance maxResults [] found).map .ok
  | answer => answer.error?.toList.map .error

end Collect

/-! ### Both searches -/

/-- `r["source"]`. -/
inductive Source where
  | semantic
  | text
  | hybrid
  deriving DecidableEq

/-- An entry of the merged results: one of either search, and how it is marked. -/
structure Item (D : Type) where
  row : SemanticHit D ⊕ SearchResult
  source : Source

def Item.place {D : Type} (i : Item D) : String × Nat :=
  match i.row with
  | .inl hit => hit.place
  | .inr result => result.place

abbrev ItemMap (D : Type) := List ((String × Nat) × Item D)

section Merge

variable {D : Type} {S : Type} [LinearOrder S] (f : Floats S)

/-- `tools.py:760-764`. -/
def addSemantic (itemMap : ItemMap D) (r : SemanticHit D) : ItemMap D :=
  setEntry Prod.fst (r.place, ⟨.inl r, .semantic⟩) itemMap

/-- `tools.py:766-773`. -/
def addText (itemMap : ItemMap D) (r : SearchResult) : ItemMap D :=
  match itemMap.lookup r.place with
  | none => setEntry Prod.fst (r.place, ⟨.inr r, .text⟩) itemMap
  | some i => setEntry Prod.fst (r.place, { i with source := .hybrid }) itemMap

def itemMapOf (validSemantic : List (SemanticHit D)) (textResults : List SearchResult) :
    ItemMap D :=
  textResults.foldl addText (validSemantic.foldl addSemantic [])

/-- `rrf_scores`. -/
def rrfScores (validSemantic : List (SemanticHit D)) (textResults : List SearchResult) :
    List ((String × Nat) × S) :=
  fuse f.weighting (validSemantic.map SemanticHit.place) (textResults.map SearchResult.place)

/-- `merged` (`tools.py:775-776`): `sorted` is stable, also with `reverse`. -/
def merge (maxResults : Nat) (validSemantic : List (SemanticHit D))
    (textResults : List SearchResult) : List (Item D) :=
  ((ranking f.weighting (rrfScores f validSemantic textResults)).take maxResults).filterMap
    fun k ↦ (itemMapOf validSemantic textResults).lookup k

/-- What the search returns: errors, and merged results. -/
inductive Entry (D : Type) where
  | error (text : String)
  | item (i : Item D)

/-- An entry with `"error"`. -/
def errorEntry : Except String (SemanticHit D) → Option (Entry D)
  | .error text => some (.error text)
  | .ok _ => none

/-- `_hybrid_search` (`tools.py:739-778`). -/
def hybridSearch [LinearOrder D] (maxDistance : D) (maxResults : Nat)
    (textResults : List SearchResult) (answer : Answer D) : List (Entry D) :=
  let semanticResults := semanticSearch maxDistance maxResults answer
  let errors := semanticResults.filterMap errorEntry
  let validSemantic := semanticResults.filterMap Except.toOption
  errors ++ (merge f maxResults validSemantic textResults).map .item

/-- `max_results` of `search_codebase` (`tools.py:410`). -/
def clampResults (maxResults : Int) : Nat := (min (max 1 maxResults) 100).toNat

end Merge

/-! ### What the semantic search finds -/

section Semantic

variable {D : Type} [LinearOrder D] {maxDistance : D} {maxResults : Nat}

/-- The rows of the answer. -/
def Answer.rowList : Answer D → List (SymbolRow D)
  | .rows found => found
  | _ => []

/-- The nearest rows that are not too far away. -/
def Answer.hits (maxDistance : D) (maxResults : Nat) (answer : Answer D) : List (SemanticHit D) :=
  ((answer.rowList.filter (SymbolRow.near maxDistance)).take maxResults).map SymbolRow.hit

theorem collectRows_eq {output : List (SemanticHit D)} (h : output.length < maxResults)
    (rows : List (SymbolRow D)) :
    collectRows maxDistance maxResults output rows = output ++
      ((rows.filter (SymbolRow.near maxDistance)).take (maxResults - output.length)).map
        SymbolRow.hit := by
  induction rows generalizing output with
  | nil => rw [collectRows, List.filter_nil, List.take_nil, List.map_nil, List.append_nil]
  | cons row rest ih =>
    rw [collectRows]
    split
    · next hnear =>
      have hroom : maxResults - output.length = maxResults - (output.length + 1) + 1 := by omega
      rw [List.filter_cons_of_pos hnear, hroom, List.take_succ_cons, List.map_cons]
      split
      · next hfull =>
        rw [Nat.sub_eq_zero_of_le hfull, List.take_zero, List.map_nil]
      · next hmore =>
        have hlength : (output ++ [row.hit]).length = output.length + 1 := by
          rw [List.length_append, List.length_singleton]
        rw [ih (by omega), hlength, List.append_assoc, List.singleton_append]
    · next hfar =>
      rw [List.filter_cons_of_neg hfar, ih h]

/-- An answer gives error entries or hits. -/
theorem semanticSearch_eq (h : 0 < maxResults) (answer : Answer D) :
    semanticSearch maxDistance maxResults answer =
      answer.error?.toList.map .error ++ (answer.hits maxDistance maxResults).map .ok := by
  cases answer with
  | rows rows =>
    show (collectRows maxDistance maxResults [] rows).map Except.ok = _
    rw [collectRows_eq h]
    rfl
  | _ => simp [semanticSearch, Answer.hits, Answer.rowList]

end Semantic

/-! ### The map of items -/

section Items

variable {D : Type}

/-- The item at a place: the last semantic hit, else the first text result. A text result that is
found again counts as found by both searches. -/
def itemAt (hits : List (SemanticHit D)) (textResults : List SearchResult) (p : String × Nat) :
    Option (Item D) :=
  match hits.reverse.find? (·.place = p) with
  | some hit => some ⟨.inl hit, if textResults.any (·.place = p) then .hybrid else .semantic⟩
  | none => (textResults.find? (·.place = p)).map fun r ↦
      ⟨.inr r, if 1 < (textResults.map SearchResult.place).count p then .hybrid else .text⟩

theorem lookup_addSemantic (hits : List (SemanticHit D)) (p : String × Nat) :
    (hits.foldl addSemantic []).lookup p =
      (hits.reverse.find? (·.place = p)).map fun hit ↦ ⟨.inl hit, .semantic⟩ := by
  induction hits using List.reverseRecOn with
  | nil => rfl
  | append_singleton hits last ih =>
    rw [List.foldl_append, List.foldl_cons, List.foldl_nil, addSemantic, lookup_setEntry, ih,
      List.reverse_append, List.reverse_singleton, List.singleton_append, List.find?_cons]
    by_cases hp : p = last.place
    · rw [if_pos hp, decide_eq_true hp.symm]
      rfl
    · rw [if_neg hp, decide_eq_false (Ne.symm hp)]

theorem lookup_addText (itemMap : ItemMap D) (r : SearchResult) (p : String × Nat) :
    (addText itemMap r).lookup p =
      if p = r.place then
        some ((itemMap.lookup p).elim ⟨.inr r, .text⟩ fun i ↦ { i with source := .hybrid })
      else itemMap.lookup p := by
  unfold addText
  by_cases hp : p = r.place
  · rw [if_pos hp, hp]
    split
    · next hnone => rw [lookup_setEntry, if_pos rfl, hnone]; rfl
    · next i hsome => rw [lookup_setEntry, if_pos rfl, hsome]; rfl
  · rw [if_neg hp]
    split
    · rw [lookup_setEntry, if_neg hp]
    · rw [lookup_setEntry, if_neg hp]

theorem itemAt_concat_of_ne (hits : List (SemanticHit D)) (textResults : List SearchResult)
    {last : SearchResult} {p : String × Nat} (hp : p ≠ last.place) :
    itemAt hits (textResults ++ [last]) p = itemAt hits textResults p := by
  have hany : (textResults ++ [last]).any (·.place = p) = textResults.any (·.place = p) := by
    rw [List.any_append, List.any_cons, decide_eq_false (Ne.symm hp)]
    exact Bool.or_false _
  have hcount : ((textResults ++ [last]).map SearchResult.place).count p =
      (textResults.map SearchResult.place).count p := by
    rw [List.map_append, List.count_append]
    exact Nat.add_eq_left.mpr (List.count_eq_zero.mpr fun h ↦ hp (List.mem_singleton.mp h))
  have hfind : (textResults ++ [last]).find? (·.place = p) =
      textResults.find? (·.place = p) := by
    rw [List.find?_append, List.find?_cons, decide_eq_false (Ne.symm hp)]
    exact Option.or_none
  unfold itemAt
  rw [hfind, hcount, hany]

theorem itemAt_concat_self (hits : List (SemanticHit D)) (textResults : List SearchResult)
    (last : SearchResult) :
    itemAt hits (textResults ++ [last]) last.place =
      some ((itemAt hits textResults last.place).elim ⟨.inr last, .text⟩
        fun i ↦ { i with source := .hybrid }) := by
  have hany : (textResults ++ [last]).any (·.place = last.place) = true := by
    apply List.any_eq_true.mpr
    exact ⟨last, List.mem_append_right _ (List.mem_singleton.mpr rfl), decide_eq_true rfl⟩
  have hcount : ((textResults ++ [last]).map SearchResult.place).count last.place =
      (textResults.map SearchResult.place).count last.place + 1 := by
    rw [List.map_append, List.count_append, List.map_singleton, List.count_singleton_self]
  unfold itemAt
  cases hits.reverse.find? (·.place = last.place) with
  | some hit =>
    show some (⟨.inl hit, if _ then _ else _⟩ : Item D) = some ⟨.inl hit, .hybrid⟩
    rw [if_pos hany]
  | none =>
    show ((textResults ++ [last]).find? _).map _ = _
    rw [hcount, List.find?_append]
    cases hfind : textResults.find? (·.place = last.place) with
    | none =>
      have hzero : (textResults.map SearchResult.place).count last.place = 0 := by
        apply List.count_eq_zero.mpr
        intro h
        obtain ⟨r, hr, hplace⟩ := List.mem_map.mp h
        exact List.find?_eq_none.mp hfind r hr (decide_eq_true hplace)
      rw [hzero, List.find?_cons, decide_eq_true rfl]
      rfl
    | some r =>
      have hfound : last.place ∈ textResults.map SearchResult.place := by
        have hr := List.find?_some hfind
        exact List.mem_map.mpr ⟨r, List.mem_of_find?_eq_some hfind, of_decide_eq_true hr⟩
      have hpos := List.count_pos_iff.mpr hfound
      show some (⟨.inr r, if _ then _ else _⟩ : Item D) = some ⟨.inr r, .hybrid⟩
      rw [if_pos (by omega)]

theorem lookup_itemMapOf (hits : List (SemanticHit D)) (textResults : List SearchResult)
    (p : String × Nat) : (itemMapOf hits textResults).lookup p = itemAt hits textResults p := by
  induction textResults using List.reverseRecOn with
  | nil =>
    show (hits.foldl addSemantic []).lookup p = _
    rw [lookup_addSemantic, itemAt]
    cases hits.reverse.find? (·.place = p) with
    | none => rfl
    | some hit => rfl
  | append_singleton textResults last ih =>
    have hstep : itemMapOf hits (textResults ++ [last]) =
        addText (itemMapOf hits textResults) last := by
      rw [itemMapOf, List.foldl_append]
      rfl
    rw [hstep, lookup_addText]
    by_cases hp : p = last.place
    · rw [if_pos hp, ih, hp, itemAt_concat_self]
    · rw [if_neg hp, ih, itemAt_concat_of_ne _ _ hp]

theorem place_of_itemAt {hits : List (SemanticHit D)} {textResults : List SearchResult}
    {p : String × Nat} {i : Item D} (h : itemAt hits textResults p = some i) : i.place = p := by
  unfold itemAt at h
  split at h
  · next hit hfind =>
    cases h
    have hp := List.find?_some hfind
    exact of_decide_eq_true hp
  · obtain ⟨r, hfind, rfl⟩ := Option.map_eq_some_iff.mp h
    have hp := List.find?_some hfind
    exact of_decide_eq_true hp

theorem exists_itemAt {hits : List (SemanticHit D)} {textResults : List SearchResult}
    {p : String × Nat}
    (h : p ∈ hits.map SemanticHit.place ∨ p ∈ textResults.map SearchResult.place) :
    ∃ i, itemAt hits textResults p = some i := by
  unfold itemAt
  split
  · exact ⟨_, rfl⟩
  · next hnone =>
    rcases h with h | h
    · obtain ⟨hit, hhit, hp⟩ := List.mem_map.mp h
      exact absurd (decide_eq_true hp) (List.find?_eq_none.mp hnone hit (List.mem_reverse.mpr hhit))
    · obtain ⟨r, hr, hp⟩ := List.mem_map.mp h
      cases hfind : textResults.find? (·.place = p) with
      | none => exact absurd (decide_eq_true hp) (List.find?_eq_none.mp hfind r hr)
      | some found => exact ⟨_, rfl⟩

end Items

/-! ### The merged results -/

section Fused

variable {D : Type} {S : Type} [LinearOrder S] (f : Floats S)

/-- The places that either search finds. -/
def FoundAt (hits : List (SemanticHit D)) (textResults : List SearchResult) (p : String × Nat) :
    Prop :=
  p ∈ hits.map SemanticHit.place ∨ p ∈ textResults.map SearchResult.place

/-- One item for each place, marked by the searches that find it, the best sums first. No place is
left out for one with a lower sum, and none comes after a place that both searches rank no
better. -/
structure Fused (maxResults : Nat) (hits : List (SemanticHit D)) (textResults : List SearchResult)
    (merged : List (Item D)) : Prop where
  distinct : (merged.map Item.place).Nodup
  items : ∀ i ∈ merged, itemAt hits textResults i.place = some i
  limit : merged.length ≤ maxResults
  complete : merged.length < maxResults →
    ∀ p, FoundAt hits textResults p → p ∈ merged.map Item.place
  sorted : (merged.map Item.place).Pairwise fun p q ↦
    scoreOf f.weighting (rrfScores f hits textResults) q ≤
      scoreOf f.weighting (rrfScores f hits textResults) p
  best : ∀ p, FoundAt hits textResults p → p ∉ merged.map Item.place →
    ∀ q ∈ merged.map Item.place, scoreOf f.weighting (rrfScores f hits textResults) p ≤
      scoreOf f.weighting (rrfScores f hits textResults) q
  fair : ∀ p, ∀ q ∈ merged.map Item.place, p ≠ q → Covers (hits.map SemanticHit.place) p q →
    Covers (textResults.map SearchResult.place) p q →
    [p, q].Sublist (merged.map Item.place)

theorem map_place_merge (maxResults : Nat) (hits : List (SemanticHit D))
    (textResults : List SearchResult) :
    (merge f maxResults hits textResults).map Item.place =
      (ranking f.weighting (rrfScores f hits textResults)).take maxResults := by
  have hkeys (keys : List (String × Nat)) (h : ∀ k ∈ keys, FoundAt hits textResults k) :
      (keys.filterMap fun k ↦ (itemMapOf hits textResults).lookup k).map Item.place = keys := by
    induction keys with
    | nil => rfl
    | cons k rest ih =>
      obtain ⟨i, hi⟩ := exists_itemAt (h k List.mem_cons_self)
      rw [List.filterMap_cons, (lookup_itemMapOf hits textResults k).trans hi]
      show i.place :: _ = _
      rw [place_of_itemAt hi, ih fun k hk ↦ h k (List.mem_cons_of_mem _ hk)]
  exact hkeys _ fun k hk ↦ (mem_ranking _).mp (List.mem_of_mem_take hk)

theorem fused_merge (maxResults : Nat) (hits : List (SemanticHit D))
    (textResults : List SearchResult) :
    Fused f maxResults hits textResults (merge f maxResults hits textResults) := by
  have hplaces := map_place_merge f maxResults hits textResults
  have hnodup : (ranking f.weighting (rrfScores f hits textResults)).Nodup := nodup_ranking _ _ _
  have hsorted := pairwise_ranking f.weighting (rrfScores f hits textResults)
  have hlength := congrArg List.length hplaces
  rw [List.length_map, List.length_take] at hlength
  constructor
  · rw [hplaces]
    exact hnodup.take
  · intro i hi
    obtain ⟨k, -, hk⟩ := List.mem_filterMap.mp hi
    rw [lookup_itemMapOf] at hk
    rw [place_of_itemAt hk]
    exact hk
  · omega
  · intro hshort p hp
    rw [hplaces, List.take_of_length_le (by omega)]
    exact (mem_ranking _).mpr hp
  · rw [hplaces]
    exact hsorted.sublist (List.take_sublist _ _)
  · intro p hp hleft q hq
    rw [hplaces] at hleft hq
    have hmem : p ∈ ranking f.weighting (rrfScores f hits textResults) :=
      (mem_ranking _).mpr hp
    rw [← List.take_append_drop maxResults (ranking _ _)] at hmem hsorted
    have hdrop := (List.mem_append.mp hmem).resolve_left hleft
    exact (List.pairwise_append.mp hsorted).2.2 q hq p hdrop
  · intro p q hq hne hhits htext
    rw [hplaces] at hq ⊢
    apply pair_sublist_take hnodup _ hq
    have hfound : FoundAt hits textResults q := (mem_ranking _).mp (List.mem_of_mem_take hq)
    exact pair_sublist_ranking _ hne hfound hhits htext

/-- What a search returns: the error of the semantic search, if there is one, and then the fused
results of both searches. -/
theorem fused_hybridSearch [LinearOrder D] (maxDistance : D) (requested : Int)
    (textResults : List SearchResult) (answer : Answer D) :
    ∃ merged, hybridSearch f maxDistance (clampResults requested) textResults answer =
        answer.error?.toList.map .error ++ merged.map .item ∧
      Fused f (clampResults requested) (answer.hits maxDistance (clampResults requested))
        textResults merged := by
  have hpos : 0 < clampResults requested := by
    unfold clampResults
    omega
  have herrors (texts : List String) (hits : List (SemanticHit D)) :
      (texts.map Except.error ++ hits.map Except.ok).filterMap errorEntry =
        texts.map Entry.error := by
    rw [List.filterMap_append, List.filterMap_map, List.filterMap_map]
    show texts.filterMap (fun text ↦ some (Entry.error text)) ++ hits.filterMap (fun _ ↦ none) = _
    rw [List.filterMap_eq_map', List.filterMap_none, List.append_nil]
  have hvalid (texts : List String) (hits : List (SemanticHit D)) :
      (texts.map Except.error ++ hits.map Except.ok).filterMap Except.toOption = hits := by
    rw [List.filterMap_append, List.filterMap_map, List.filterMap_map]
    show texts.filterMap (fun _ ↦ none) ++ hits.filterMap (fun hit ↦ some hit) = _
    rw [List.filterMap_none, List.filterMap_some, List.nil_append]
  refine ⟨merge f (clampResults requested) (answer.hits maxDistance (clampResults requested))
    textResults, ?_, fused_merge f _ _ _⟩
  simp only [hybridSearch, semanticSearch_eq hpos, herrors, hvalid]

/-- Sums of whole millionths. -/
def millionths : Floats Nat where
  zero := 0
  add := (· + ·)
  inverse n := 1000000 / n
  add_le_add := Nat.add_le_add
  le_add_inverse _ _ := Nat.le_add_right _ _
  inverse_le hpos h := Nat.div_le_div_left h hpos

-- The second text result is also a semantic hit.
example :
    let hit : SemanticHit Nat := ⟨"a.py", "run", "function", 7, 9, none, some 1, false⟩
    rrfScores millionths [hit] [⟨"b.py", 1, "run", "run"⟩, ⟨"a.py", 7, "run", "run()"⟩] =
      [(("a.py", 7), 32522), (("b.py", 1), 16393)] := by
  decide +kernel

end Fused

end GithubAgent.Mcp.HybridSearch
