import GithubAgent.Indexing.Embedding

/-!
# Which chunk an embedding is written to

`batch_embed` returns the embeddings of the texts in their order, without the missing ones,
and `upsert_chunks` zips this shorter list with all chunks. The two agree exactly when the
chunks without an embedding are the last ones.
-/

namespace GithubAgent.Indexing

open GithubAgent.Base

section Fresh

variable {E : Type} {api : Api E} {batchSize : Int} {texts : List String}

/-- An entry of the reply to the batch at an offset. -/
def replyEntry (api : Api E) (batchSize : Int) (texts : List String) (offset k : Nat) : Option E :=
  match embedBatch api offset (batchAt texts batchSize offset) 4 0 with
  | .ok reply => reply.val[k]?.join
  | .error _ => none

/-- The embedding the API returned for a text: the entry at its place in the reply to the
batch that contains it. -/
def freshEmbedding (api : Api E) (batchSize : Int) (texts : List String) (p : Nat) : Option E :=
  if 0 < batchSize ∧ p < texts.length then
    replyEntry api batchSize texts (p / batchSize.toNat * batchSize.toNat) (p % batchSize.toNat)
  else none

theorem replyEntry_eq_some {offset k : Nat} {e : E} :
    replyEntry api batchSize texts offset k = some e ↔
      ∃ reply, embedBatch api offset (batchAt texts batchSize offset) 4 0 = .ok reply ∧
        reply.val[k]? = some (some e) := by
  unfold replyEntry
  cases embedBatch api offset (batchAt texts batchSize offset) 4 0 with
  | error err => simp
  | ok reply => simp [Option.join_eq_some_iff]

/-! ### The loop over the batches -/

theorem length_validEmbeddings (i : Nat) (reply : List (Option E)) : ∀ j,
    (validEmbeddings i j reply).2.length = (validEmbeddings i j reply).1.length := by
  induction reply with
  | nil =>
    intro j
    rfl
  | cons e rest ih =>
    intro j
    cases e with
    | none => exact ih (j + 1)
    | some e => simp [validEmbeddings, ih (j + 1)]

/-- The pairs of a batch: an embedding with values and its index. -/
theorem mem_validEmbeddings (i : Nat) (reply : List (Option E)) (p : Nat) (e : E) : ∀ j,
    (p, e) ∈ (validEmbeddings i j reply).2.zip (validEmbeddings i j reply).1 ↔
      ∃ k, reply[k]? = some (some e) ∧ p = i + j + k := by
  induction reply with
  | nil =>
    intro j
    simp [validEmbeddings]
  | cons head rest ih =>
    intro j
    have hshift : (∃ k, (head :: rest)[k]? = some (some e) ∧ p = i + j + k) ↔
        (head = some e ∧ p = i + j) ∨ ∃ k, rest[k]? = some (some e) ∧ p = i + (j + 1) + k := by
      constructor
      · rintro ⟨k, hk, hp⟩
        cases k with
        | zero => exact .inl ⟨by simpa using hk, hp⟩
        | succ k => exact .inr ⟨k, by simpa using hk, by omega⟩
      · rintro (⟨hk, hp⟩ | ⟨k, hk, hp⟩)
        · exact ⟨0, by simpa using hk, hp⟩
        · exact ⟨k + 1, by simpa using hk, by omega⟩
    rw [hshift, ← ih (j + 1)]
    cases head with
    | none => simp [validEmbeddings]
    | some v =>
      simp only [validEmbeddings, List.zip_cons_cons, List.mem_cons, Prod.mk.injEq,
        Option.some.injEq]
      constructor
      · rintro (⟨hp, he⟩ | h)
        · exact .inl ⟨he.symm, hp⟩
        · exact .inr h
      · rintro (⟨he, hp⟩ | h)
        · exact .inl ⟨hp, he.symm⟩
        · exact .inr h

/-- The pairs collected by the loop are those of its batches. -/
theorem mem_embedLoop {offsets : List Nat} {acc r : List E × List Nat}
    (h : embedLoop api batchSize texts offsets acc = .ok r) (hacc : acc.2.length = acc.1.length)
    (p : Nat) (e : E) : (p, e) ∈ r.2.zip r.1 ↔ (p, e) ∈ acc.2.zip acc.1 ∨
      ∃ i ∈ offsets, ∃ reply, embedBatch api i (batchAt texts batchSize i) 4 0 = .ok reply ∧
        ∃ k, reply.val[k]? = some (some e) ∧ p = i + k := by
  induction offsets generalizing acc with
  | nil =>
    cases h
    simp
  | cons i rest ih =>
    simp only [embedLoop] at h
    cases hb : embedBatch api i (batchAt texts batchSize i) 4 0 with
    | error err =>
      rw [hb] at h
      cases h
    | ok reply =>
      rw [hb] at h
      have hlen := length_validEmbeddings i reply.val 0
      rw [ih h (by simp [hacc, hlen]), List.zip_append hacc, List.mem_append,
        mem_validEmbeddings]
      simp only [List.mem_cons, exists_eq_or_imp, hb, Except.ok.injEq, exists_eq_left',
        Nat.add_zero, or_assoc]

/-- The offsets of the batches are the multiples of the batch size below the length. -/
theorem mem_pyRange {n i : Nat} (hpos : 0 < batchSize) :
    i ∈ pyRange n batchSize ↔ i < n ∧ ∃ m, i = m * batchSize.toNat := by
  have hb : 0 < batchSize.toNat := by omega
  have hlt (m : Nat) : m < (n + batchSize.toNat - 1) / batchSize.toNat ↔ m * batchSize.toNat < n := by
    rw [Nat.lt_div_iff_mul_lt hb]
    omega
  simp only [pyRange, List.mem_map, List.mem_range]
  constructor
  · rintro ⟨m, hm, rfl⟩
    exact ⟨(hlt m).mp hm, m, rfl⟩
  · rintro ⟨hi, m, rfl⟩
    exact ⟨m, (hlt m).mpr hi, rfl⟩

/-- What `_embed_texts` returns, as a dictionary, is the embedding of each text. -/
theorem dictGet_embedTexts {r : List E × List Nat} (h : embedTexts api batchSize texts = .ok r)
    (p : Nat) : dictGet (r.2.zip r.1) p = freshEmbedding api batchSize texts p := by
  unfold embedTexts at h
  split at h
  · cases h
  · next hzero =>
    apply dictGet_eq
    intro p e
    rw [mem_embedLoop h rfl]
    simp only [List.zip_nil_left, List.not_mem_nil, false_or]
    rcases Int.lt_or_gt_of_ne hzero with hneg | hpos
    · have hrange : pyRange texts.length batchSize = [] := by
        have hb : batchSize.toNat = 0 := by omega
        simp [pyRange, hb]
      have hnot : ¬ 0 < batchSize := by omega
      simp [hrange, freshEmbedding, hnot]
    · have hb : 0 < batchSize.toNat := by omega
      constructor
      · rintro ⟨i, hi, reply, hreply, k, hk, rfl⟩
        obtain ⟨hlt, m, rfl⟩ := (mem_pyRange hpos).mp hi
        have hlen := reply.property
        have hkl := (List.getElem?_eq_some_iff.mp hk).1
        simp only [batchAt, List.length_take, List.length_drop] at hlen
        have hkb : k < batchSize.toNat := by omega
        have hdiv : (m * batchSize.toNat + k) / batchSize.toNat = m := by
          rw [Nat.mul_comm, Nat.mul_add_div hb, Nat.div_eq_of_lt hkb, Nat.add_zero]
        have hmod : (m * batchSize.toNat + k) % batchSize.toNat = k := by
          rw [Nat.mul_comm, Nat.mul_add_mod, Nat.mod_eq_of_lt hkb]
        have hin : 0 < batchSize ∧ m * batchSize.toNat + k < texts.length := ⟨hpos, by omega⟩
        rw [freshEmbedding, if_pos hin, hdiv, hmod]
        exact replyEntry_eq_some.mpr ⟨reply, hreply, hk⟩
      · intro hf
        unfold freshEmbedding at hf
        split at hf
        · next hin =>
          obtain ⟨reply, hreply, hk⟩ := replyEntry_eq_some.mp hf
          refine ⟨_, (mem_pyRange hpos).mpr ⟨?_, p / batchSize.toNat, rfl⟩, reply, hreply,
            p % batchSize.toNat, hk, ?_⟩
          · exact Nat.lt_of_le_of_lt (Nat.div_mul_le_self p _) hin.2
          · rw [Nat.mul_comm]
            exact (Nat.div_add_mod p _).symm
        · cases hf

end Fresh

section Batch

variable {H E : Type} [DecidableEq E]

/-! ### What belongs to each text -/

/-- The cached value of a text: a vector, or `null`. There is none without Redis, and none for
any text when the lookup fails or one of its fields is not JSON. -/
def cachedValue (contentHash : String → H) (redis : Option (Cache H E)) (texts : List String)
    (text : String) : Option (Option E) :=
  match redis with
  | none => none
  | some cache =>
    if cache.lookupFails ∨ ∃ t ∈ texts, cache.entries (contentHash t) = some .malformed then none
    else (cache.entries (contentHash text)).map CacheValue.loads

/-- The positions of the texts without a cached value. -/
def missPositions (contentHash : String → H) (redis : Option (Cache H E)) (texts : List String) :
    List Nat :=
  (List.range texts.length).filter fun i ↦
    texts[i]?.bind (cachedValue contentHash redis texts) = none

/-- The texts that `batch_embed` sends to the API. -/
def missTexts (contentHash : String → H) (redis : Option (Cache H E)) (texts : List String) :
    List String :=
  (missPositions contentHash redis texts).filterMap fun i ↦ texts[i]?

/-- The embedding of the text at a position: its cached value, or the embedding the API
returned for it among the texts without one. -/
def embeddingOf (contentHash : String → H) (api : Api E) (batchSize : Int)
    (redis : Option (Cache H E)) (texts : List String) (k : Nat) : Option (Option E) :=
  match texts[k]?.bind (cachedValue contentHash redis texts) with
  | some v => some v
  | none =>
    (((missPositions contentHash redis texts).idxOf? k).bind
      (freshEmbedding api batchSize (missTexts contentHash redis texts))).map some

/-- `batch_embed` returns: every text is cached, or the batch size is not zero, every batch of
the others is embedded after at most five attempts, and no cached value is `null`. -/
def Returns (contentHash : String → H) (api : Api E) (batchSize : Int)
    (redis : Option (Cache H E)) (texts : List String) : Prop :=
  missPositions contentHash redis texts = [] ∨
    (batchSize ≠ 0 ∧
      (∀ i ∈ pyRange (missTexts contentHash redis texts).length batchSize, ∃ reply,
        embedBatch api i (batchAt (missTexts contentHash redis texts) batchSize i) 4 0 =
          .ok reply) ∧
      ∀ text ∈ texts, cachedValue contentHash redis texts text ≠ some none)

variable {contentHash : String → H} {api : Api E} {batchSize : Int} {redis : Option (Cache H E)}
  {texts : List String}

theorem cachedValue_of_fails {cache : Cache H E} (h : cache.lookupFails = true ∨
      ∃ t ∈ texts, cache.entries (contentHash t) = some .malformed) (text : String) :
    cachedValue contentHash (some cache) texts text = none := by
  simp only [cachedValue, if_pos h]

theorem cachedValue_of_not_fails {cache : Cache H E} (h : ¬ (cache.lookupFails = true ∨
      ∃ t ∈ texts, cache.entries (contentHash t) = some .malformed)) (text : String) :
    cachedValue contentHash (some cache) texts text =
      (cache.entries (contentHash text)).map CacheValue.loads := by
  simp only [cachedValue, if_neg h]

omit [DecidableEq E] in
/-- Every position is a miss when no text has a cached value. -/
theorem filter_range_eq {f : String → Option (Option E)} (h : ∀ text, f text = none) :
    (List.range texts.length).filter (fun i ↦ texts[i]?.bind f = none) =
      List.range texts.length := by
  rw [List.filter_eq_self]
  intro i _
  cases texts[i]? with
  | none => rfl
  | some text => simp [h text]

/-- The lookup finds the misses. -/
theorem lookup_misses :
    (lookup contentHash redis texts).2 = missPositions contentHash redis texts := by
  unfold lookup missPositions
  cases redis with
  | none => exact (filter_range_eq (f := cachedValue contentHash none texts) fun _ ↦ rfl).symm
  | some cache =>
    simp only [getCachedEmbeddings, List.mem_map]
    by_cases hfail : cache.lookupFails = true ∨
        ∃ t ∈ texts, cache.entries (contentHash t) = some .malformed
    · rw [if_pos hfail, filter_range_eq (cachedValue_of_fails hfail)]
    · rw [if_neg hfail]
      apply List.filter_congr
      intro i hi
      have hlt := List.mem_range.mp hi
      simp [hlt, cachedValue_of_not_fails hfail]

/-- The lookup finds the cached vectors. -/
theorem lookup_cached (k : Nat) :
    (lookup contentHash redis texts).1[k]?.join =
      (texts[k]?.bind (cachedValue contentHash redis texts)).join := by
  have hmissing : (List.replicate texts.length (none : Option E))[k]?.join = none := by
    rw [List.getElem?_replicate]
    split <;> rfl
  unfold lookup
  cases redis with
  | none =>
    rw [hmissing]
    cases texts[k]? <;> rfl
  | some cache =>
    simp only [getCachedEmbeddings, List.mem_map]
    by_cases hfail : cache.lookupFails = true ∨
        ∃ t ∈ texts, cache.entries (contentHash t) = some .malformed
    · rw [if_pos hfail, hmissing]
      cases texts[k]? with
      | none => rfl
      | some text => simp [cachedValue_of_fails hfail]
    · rw [if_neg hfail]
      simp only [List.getElem?_map]
      cases texts[k]? with
      | none => rfl
      | some text =>
        simp only [Option.map_some, Option.bind_some, cachedValue_of_not_fails hfail]
        cases cache.entries (contentHash text) <;> rfl

/-- The results of the lookup have one entry for each text. -/
theorem length_lookup : (lookup contentHash redis texts).1.length = texts.length := by
  unfold lookup
  cases redis with
  | none => simp
  | some cache =>
    simp only [getCachedEmbeddings]
    split <;> simp

/-! ### The merge -/

omit [DecidableEq E] in
/-- The merge keeps the cached and the new embeddings, in order, when every text without a
cached vector has a position among the misses. -/
theorem mergeResults_eq {cached : List (Option E)} {indexToLocal : Nat → Option Nat}
    {localToEmbed : Nat → Option E} {indices : List Nat}
    (h : ∀ i ∈ indices, cached[i]?.join = none → indexToLocal i ≠ none) :
    mergeResults cached indexToLocal localToEmbed indices =
      .ok (indices.filterMap fun i ↦
        match cached[i]?.join with
        | some e => some (some e)
        | none => ((indexToLocal i).bind localToEmbed).map some) := by
  induction indices with
  | nil => rfl
  | cons i rest ih =>
    have hrest := ih fun x hx ↦ h x (List.mem_cons_of_mem _ hx)
    simp only [mergeResults, List.filterMap_cons]
    cases hc : cached[i]?.join with
    | some e => simp [hrest, Except.map]
    | none =>
      obtain ⟨pos, hpos⟩ := Option.ne_none_iff_exists'.mp (h i List.mem_cons_self hc)
      simp only [hpos, Option.bind_some]
      cases localToEmbed pos with
      | some e => simp [hrest, Except.map]
      | none => simp [hrest]

omit [DecidableEq E] in
/-- The merge fails on a text without a cached vector that is not among the misses. -/
theorem mergeResults_error {cached : List (Option E)} {indexToLocal : Nat → Option Nat}
    {localToEmbed : Nat → Option E} {indices : List Nat} {i : Nat} (hi : i ∈ indices)
    (hcached : cached[i]?.join = none) (hindex : indexToLocal i = none) :
    ∀ r, mergeResults cached indexToLocal localToEmbed indices ≠ .ok r := by
  induction indices with
  | nil => cases hi
  | cons x rest ih =>
    intro r hr
    simp only [mergeResults] at hr
    rcases List.mem_cons.mp hi with rfl | hi
    · rw [hcached, hindex] at hr
      cases hr
    · have hrest (f : List (Option E) → List (Option E)) :
          (mergeResults cached indexToLocal localToEmbed rest).map f ≠ .ok r := by
        intro hmap
        cases hm : mergeResults cached indexToLocal localToEmbed rest with
        | error e =>
          rw [hm] at hmap
          cases hmap
        | ok r' => exact ih hi r' hm
      split at hr
      · exact hrest _ hr
      · split at hr
        · cases hr
        · split at hr
          · exact hrest _ hr
          · exact ih hi r hr

/-- `index_to_local` maps a miss to its position among the misses. -/
theorem dictGet_zipIdx {misses : List Nat} (hnodup : misses.Nodup) (i : Nat) :
    dictGet misses.zipIdx i = misses.idxOf? i := by
  apply dictGet_eq
  intro key pos
  rw [List.mem_zipIdx_iff_getElem?, List.idxOf?_eq_some_iff]
  constructor
  · intro h
    obtain ⟨hlt, hget⟩ := List.getElem?_eq_some_iff.mp h
    refine ⟨hlt, by simpa using hget, ?_⟩
    intro j hj hjk
    have heq : misses[j] = misses[pos] := by rw [hget]; simpa using hjk
    have hji := (List.getElem_inj hnodup).mp heq
    omega
  · rintro ⟨hlt, hget, -⟩
    exact List.getElem?_eq_some_iff.mpr ⟨hlt, by simpa using hget⟩

theorem nodup_missPositions : (missPositions contentHash redis texts).Nodup :=
  List.nodup_range.filter _

theorem mem_missPositions {i : Nat} (hi : i < texts.length) :
    i ∈ missPositions contentHash redis texts ↔
      texts[i]?.bind (cachedValue contentHash redis texts) = none := by
  simp only [missPositions, List.mem_filter, List.mem_range, hi, true_and, decide_eq_true_eq]

/-! ### When `batch_embed` returns, and what -/

omit [DecidableEq E] in
/-- The loop of `_embed_texts` succeeds exactly when each of its batches does. -/
theorem exists_embedLoop_iff {offsets : List Nat} {acc : List E × List Nat} {T : List String} :
    (∃ r, embedLoop api batchSize T offsets acc = .ok r) ↔
      ∀ i ∈ offsets, ∃ reply, embedBatch api i (batchAt T batchSize i) 4 0 = .ok reply := by
  induction offsets generalizing acc with
  | nil => simp [embedLoop]
  | cons i rest ih =>
    simp only [embedLoop, List.forall_mem_cons]
    cases hb : embedBatch api i (batchAt T batchSize i) 4 0 with
    | error e => simp
    | ok reply => simp [ih]

/-- Without a miss, the results of the lookup are the embeddings of the texts. -/
theorem lookup_eq_compact (h : missPositions contentHash redis texts = []) :
    (lookup contentHash redis texts).1 =
      compact (embeddingOf contentHash api batchSize redis texts) texts.length := by
  have hcached (k : Nat) (hk : k < texts.length) :
      ∃ v, texts[k]?.bind (cachedValue contentHash redis texts) = some v ∧
        embeddingOf contentHash api batchSize redis texts k = some v := by
    have hmiss : k ∉ missPositions contentHash redis texts := by simp [h]
    rw [mem_missPositions hk] at hmiss
    obtain ⟨v, hv⟩ := Option.ne_none_iff_exists'.mp hmiss
    exact ⟨v, hv, by rw [embeddingOf, hv]⟩
  have hsome (k : Nat) (hk : k < texts.length) :
      embeddingOf contentHash api batchSize redis texts k ≠ none := by
    obtain ⟨v, -, hv⟩ := hcached k hk
    simp [hv]
  apply List.ext_getElem?
  intro k
  rcases Nat.lt_or_ge k texts.length with hk | hk
  · obtain ⟨v, hv, hof⟩ := hcached k hk
    have hjoin : (lookup contentHash redis texts).1[k]?.join = _ := lookup_cached k
    have hl : k < (lookup contentHash redis texts).1.length := by rwa [length_lookup]
    rw [hv, Option.join_some, List.getElem?_eq_getElem hl, Option.join_some] at hjoin
    rw [List.getElem?_eq_getElem hl, hjoin, getElem?_compact_of_isSome hsome hk, hof]
  · rw [List.getElem?_eq_none (by rwa [length_lookup]),
      List.getElem?_eq_none (by rwa [length_compact_of_isSome hsome])]

omit [DecidableEq E] in
/-- `_embed_texts` returns when the batch size is not zero and every batch is embedded. -/
theorem exists_embedTexts_iff {T : List String} :
    (∃ r, embedTexts api batchSize T = .ok r) ↔ batchSize ≠ 0 ∧
      ∀ i ∈ pyRange T.length batchSize, ∃ reply,
        embedBatch api i (batchAt T batchSize i) 4 0 = .ok reply := by
  unfold embedTexts
  by_cases hzero : batchSize = 0
  · simp [hzero]
  · rw [if_neg hzero, exists_embedLoop_iff]
    simp [hzero]

/-- What the merge keeps of a text that has no cached `null` is its embedding. -/
theorem merged_eq_embeddingOf {r : List E × List Nat} {k : Nat}
    (hnew : embedTexts api batchSize (missTexts contentHash redis texts) = .ok r)
    (hnull : texts[k]?.bind (cachedValue contentHash redis texts) ≠ some none) :
    (match (lookup contentHash redis texts).1[k]?.join with
      | some e => some (some e)
      | none => (((missPositions contentHash redis texts).idxOf? k).bind
          (dictGet (r.2.zip r.1))).map some) =
      embeddingOf contentHash api batchSize redis texts k := by
  have hdict : dictGet (r.2.zip r.1) =
      freshEmbedding api batchSize (missTexts contentHash redis texts) :=
    funext (dictGet_embedTexts hnew)
  rw [lookup_cached, embeddingOf, hdict]
  cases hv : texts[k]?.bind (cachedValue contentHash redis texts) with
  | none => rfl
  | some v =>
    cases v with
    | none => exact absurd hv hnull
    | some e => rfl

/-- A text with a cached `null` is not a miss, and has no vector. -/
theorem null_not_miss {k : Nat} (hk : k < texts.length)
    (hnull : texts[k]?.bind (cachedValue contentHash redis texts) = some none) :
    (lookup contentHash redis texts).1[k]?.join = none ∧
      (missPositions contentHash redis texts).idxOf? k = none := by
  constructor
  · rw [lookup_cached, hnull]
    rfl
  · rw [List.idxOf?_eq_none_iff, mem_missPositions hk, hnull]
    nofun

theorem miss_of_not_null {k : Nat} (hk : k < texts.length)
    (hnull : texts[k]?.bind (cachedValue contentHash redis texts) ≠ some none)
    (hjoin : (lookup contentHash redis texts).1[k]?.join = none) :
    (missPositions contentHash redis texts).idxOf? k ≠ none := by
  intro hnone
  rw [List.idxOf?_eq_none_iff, mem_missPositions hk] at hnone
  rw [lookup_cached, Option.join_eq_none_iff] at hjoin
  rcases hjoin with hjoin | hjoin
  · exact hnone hjoin
  · exact hnull hjoin

/-- No text has the cached value `null`. -/
theorem forall_text_iff :
    (∀ text ∈ texts, cachedValue contentHash redis texts text ≠ some none) ↔
      ∀ k < texts.length, texts[k]?.bind (cachedValue contentHash redis texts) ≠ some none := by
  constructor
  · intro h k hk
    rw [List.getElem?_eq_getElem hk, Option.bind_some]
    exact h _ (List.getElem_mem hk)
  · intro h text htext
    obtain ⟨k, hk, rfl⟩ := List.getElem_of_mem htext
    have hne := h k hk
    rwa [List.getElem?_eq_getElem hk, Option.bind_some] at hne

variable [DecidableEq H]

/-- `batch_embed` returns under exactly the stated conditions, and then it returns the
embeddings of the texts, in order and without the missing ones. -/
theorem batchEmbed_ok_iff {results : List (Option E)} :
    (∃ cache, batchEmbed contentHash api batchSize redis texts = .ok (results, cache)) ↔
      Returns contentHash api batchSize redis texts ∧
        results = compact (embeddingOf contentHash api batchSize redis texts) texts.length := by
  unfold batchEmbed
  dsimp only
  by_cases hne : texts = []
  · subst hne
    simp [Returns, missPositions, compact, eq_comm]
  · rw [if_neg hne, lookup_misses]
    by_cases hmiss : missPositions contentHash redis texts = []
    · rw [if_pos hmiss]
      have hret : Returns contentHash api batchSize redis texts := .inl hmiss
      rw [← lookup_eq_compact hmiss]
      simp [hret, eq_comm]
    · rw [if_neg hmiss]
      have hret : Returns contentHash api batchSize redis texts ↔
          (∃ r, embedTexts api batchSize (missTexts contentHash redis texts) = .ok r) ∧
            ∀ text ∈ texts, cachedValue contentHash redis texts text ≠ some none := by
        rw [exists_embedTexts_iff, Returns, or_iff_right hmiss, and_assoc]
      have hindex : dictGet (missPositions contentHash redis texts).zipIdx =
          (missPositions contentHash redis texts).idxOf? :=
        funext (dictGet_zipIdx nodup_missPositions)
      rw [hret, hindex, ← missTexts]
      cases hnew : embedTexts api batchSize (missTexts contentHash redis texts) with
      | error e => simp
      | ok r =>
        dsimp only
        by_cases hnull : ∀ text ∈ texts, cachedValue contentHash redis texts text ≠ some none
        · -- no cached null: the merge succeeds, and keeps the embeddings
          have hnull' := forall_text_iff.mp hnull
          have hmerge : mergeResults (lookup contentHash redis texts).1
              (missPositions contentHash redis texts).idxOf? (dictGet (r.2.zip r.1))
              (List.range texts.length) =
              .ok (compact (embeddingOf contentHash api batchSize redis texts) texts.length) := by
            rw [mergeResults_eq fun i hi ↦
              miss_of_not_null (List.mem_range.mp hi) (hnull' i (List.mem_range.mp hi))]
            exact congrArg Except.ok (List.filterMap_congr fun i hi ↦
              merged_eq_embeddingOf hnew (hnull' i (List.mem_range.mp hi)))
          rw [hmerge]
          constructor
          · rintro ⟨cache, h⟩
            cases h
            exact ⟨⟨⟨r, rfl⟩, hnull⟩, rfl⟩
          · rintro ⟨-, rfl⟩
            exact ⟨_, rfl⟩
        · -- a cached null: the merge finds no position for its text
          obtain ⟨k, hk⟩ := Classical.not_forall.mp (mt forall_text_iff.mpr hnull)
          obtain ⟨hlt, hk⟩ := Classical.not_imp.mp hk
          obtain ⟨hjoin, hidx⟩ := null_not_miss hlt (not_not.mp hk)
          have herr : ∀ r', mergeResults (lookup contentHash redis texts).1
              (missPositions contentHash redis texts).idxOf? (dictGet (r.2.zip r.1))
              (List.range texts.length) ≠ .ok r' :=
            mergeResults_error (List.mem_range.mpr hlt) hjoin hidx
          cases hm : mergeResults (lookup contentHash redis texts).1
              (missPositions contentHash redis texts).idxOf? (dictGet (r.2.zip r.1))
              (List.range texts.length) with
          | error e =>
            simp [Except.map, hnull]
          | ok r' => exact absurd hm (herr r')

/-! ### Which embedding a chunk's record carries -/

/-- Every record written for a chunk carries the embedding of the chunk's own text. -/
def Attached (contentHash : String → H) (digest : String → String) (api : Api E) (batchSize : Int)
    (redis : Option (Cache H E)) (repo : String) (chunks : List Chunk) : Prop :=
  ∀ embeddings cache, batchEmbed contentHash api batchSize redis (chunks.map Chunk.embedText) =
      .ok (embeddings, cache) →
    ∀ k c recordId record, chunks[k]? = some c →
      (chunkUpserts digest repo chunks embeddings)[k]? = some (.upsert recordId record) →
      embeddingOf contentHash api batchSize redis (chunks.map Chunk.embedText) k =
        some record.embedding

/-- An API that has no embedding for the first text of a batch and one for the second. -/
def skipsFirst : Api Nat := fun _ _ batch ↦
  .ok ⟨[none, some 2].take batch.length, by rw [List.length_take]; omega⟩

/-- A chunk without an embedding precedes a chunk with one, and gets its embedding. -/
theorem not_attached : ¬ Attached (fun text : String ↦ text) (fun key ↦ key) skipsFirst 20 none
    "octo/repo"
    [⟨"a.py", "f", .function, "python", 1, 2, "def f(): pass", none⟩,
      ⟨"a.py", "g", .function, "python", 4, 5, "def g(): pass", none⟩] := by
  intro h
  have hown := h [some 2] none rfl 0 _ _ _ rfl rfl
  exact absurd hown (by decide)

omit [DecidableEq E] [DecidableEq H] in
/-- The record written for a chunk carries the embedding at the chunk's place in the list. -/
theorem chunkUpserts_getElem? {digest : String → String} {repo : String} {chunks : List Chunk}
    {embeddings : List (Option E)} {k : Nat} {c : Chunk} (hc : chunks[k]? = some c)
    (v : Option E) : embeddings[k]? = some v ↔ ∃ recordId record,
      (chunkUpserts digest repo chunks embeddings)[k]? = some (.upsert recordId record) ∧
        record.embedding = v := by
  have hzip : (chunks.zip embeddings)[k]? = embeddings[k]?.map fun w ↦ (c, w) := by
    cases hv : embeddings[k]? with
    | none =>
      rw [List.getElem?_eq_none]
      · rfl
      · rw [List.length_zip]
        have hle := List.getElem?_eq_none_iff.mp hv
        omega
    | some w => exact List.getElem?_zip_eq_some.mpr ⟨hc, hv⟩
  simp only [chunkUpserts, List.getElem?_map, hzip]
  cases embeddings[k]? with
  | none => simp
  | some w => simp [Chunk.record]

/-- The embeddings stay with their chunks exactly when `batch_embed` fails, or the chunks
without an embedding come last. -/
theorem attached_iff (digest : String → String) (repo : String) (chunks : List Chunk) :
    Attached contentHash digest api batchSize redis repo chunks ↔
      (Returns contentHash api batchSize redis (chunks.map Chunk.embedText) →
        ∀ i j, i < j → j < chunks.length →
          embeddingOf contentHash api batchSize redis (chunks.map Chunk.embedText) i = none →
          embeddingOf contentHash api batchSize redis (chunks.map Chunk.embedText) j = none) := by
  have hlen : (chunks.map Chunk.embedText).length = chunks.length := List.length_map _
  rw [← hlen, ← compact_aligned_iff]
  constructor
  · intro h hret k v hk
    obtain ⟨cache, hok⟩ := batchEmbed_ok_iff.mpr ⟨hret, rfl⟩
    have hlt : k < chunks.length := by
      have hlt := (List.getElem?_eq_some_iff.mp hk).1
      have hle := length_compact_le (embeddingOf contentHash api batchSize redis
        (chunks.map Chunk.embedText)) (chunks.map Chunk.embedText).length
      omega
    have hc := List.getElem?_eq_getElem hlt
    obtain ⟨recordId, record, hup, rfl⟩ := (chunkUpserts_getElem? hc v).mp hk
    exact h _ cache hok k _ recordId record hc hup
  · intro h embeddings cache hok k c recordId record hc hup
    obtain ⟨hret, rfl⟩ := batchEmbed_ok_iff.mp ⟨cache, hok⟩
    exact h hret k _ ((chunkUpserts_getElem? hc _).mpr ⟨recordId, record, hup, rfl⟩)

end Batch

end GithubAgent.Indexing
