import GithubAgent.Base.Lists
import Mathlib.Tactic

/-!
# Embedding the chunks of a repository

`batch_embed`, `_embed_texts` and `upsert_chunks` of
`src/services/indexing_worker/indexing_worker.py`, with the embedding cache and the `Chunk`
of `src/shared/chunker.py`. The embedding API and the hash functions are parameters; a
vector is an element of an arbitrary type.
-/

namespace GithubAgent.Indexing

open GithubAgent.Base

/-- `ChunkKind` (`chunker.py:46`). -/
inductive ChunkKind where
  | function
  | «class»
  | method
  | module
  deriving DecidableEq

/-- The literal of a chunk kind. -/
def ChunkKind.value : ChunkKind → String
  | .function => "function"
  | .class => "class"
  | .method => "method"
  | .module => "module"

/-- A semantic unit of source code (`chunker.py:41-51`). -/
structure Chunk where
  filepath : String
  name : String
  kind : ChunkKind
  language : String
  startLine : Nat
  endLine : Nat
  content : String
  parent : Option String := none
  deriving DecidableEq

/-- `Chunk.embed_text` (`chunker.py:53-66`); an empty parent counts as none. -/
def Chunk.embedText (c : Chunk) : String :=
  let name :=
    match c.parent with
    | none => c.name
    | some parent => if parent = "" then c.name else parent ++ "." ++ c.name
  "# " ++ c.filepath ++ " | " ++ c.kind.value ++ ": " ++ name ++ "\n" ++ c.content

/-! ### The cache -/

section Cache

variable {H E : Type}

/-- The JSON text of a field of the cache hash: not JSON, `null`, or a vector. -/
inductive CacheValue (E : Type) where
  | malformed
  | null
  | vector (values : E)
  deriving DecidableEq

/-- `json.loads(raw)` of a well-formed field. -/
def CacheValue.loads : CacheValue E → Option E
  | .vector values => some values
  | _ => none

/-- The cache hash, and whether Redis fails during the lookup or the store. -/
structure Cache (H E : Type) where
  entries : H → Option (CacheValue E)
  lookupFails : Bool
  storeFails : Bool

variable [DecidableEq E]

/-- `_get_cached_embeddings` (`indexing_worker.py:103-129`): the values found and the indices
of the misses. An exception, also one of `json.loads`, makes every text a miss. -/
def getCachedEmbeddings (contentHash : String → H) (cache : Cache H E) (contents : List String) :
    List (Option E) × List Nat :=
  let cached := contents.map fun c ↦ cache.entries (contentHash c)
  if cache.lookupFails ∨ some .malformed ∈ cached then
    (List.replicate contents.length none, List.range contents.length)
  else
    (cached.map fun raw ↦ raw.bind CacheValue.loads,
      (List.range contents.length).filter fun i ↦ cached[i]? = some none)

/-- `_cache_embeddings` (`indexing_worker.py:132-143`). -/
def cacheEmbeddings [DecidableEq H] (contentHash : String → H) (cache : Cache H E)
    (contents : List String) (embeddings : List E) : Cache H E :=
  if cache.storeFails then cache
  else
    let mapping := (contents.map contentHash).zip embeddings
    { cache with
      entries := fun h ↦
        match dictGet mapping h with
        | some e => some (.vector e)
        | none => cache.entries h }

end Cache

/-! ### The embedding API -/

section Api

variable {E : Type}

/-- The API's embeddings for a batch, in the order of its texts; `none` stands for an
embedding without values. -/
abbrev Reply (E : Type) (batch : List String) := { r : List (Option E) // r.length ≤ batch.length }

/-- The API, which may answer differently at each attempt; an error is its exception's text. -/
abbrev Api (E : Type) := (offset attempt : Nat) → (batch : List String) → Except String (Reply E batch)

/-- `is_rate_limit` (`indexing_worker.py:212`). -/
def isRateLimit (message : String) : Bool :=
  decide ("429".toList <:+: message.toList) || decide ("RESOURCE_EXHAUSTED".toList <:+: message.toList)

/-- The attempts at one batch: `left` more follow a rate limit (`indexing_worker.py:169-222`). -/
def embedBatch (api : Api E) (offset : Nat) (batch : List String) :
    (left attempt : Nat) → Except String (Reply E batch)
  | 0, attempt => api offset attempt batch
  | left + 1, attempt =>
    match api offset attempt batch with
    | .ok reply => .ok reply
    | .error e => if isRateLimit e then embedBatch api offset batch left (attempt + 1) else .error e

/-- The embeddings with values, and their indices `i + j` (`indexing_worker.py:184-192`). -/
def validEmbeddings (i j : Nat) : List (Option E) → List E × List Nat
  | [] => ([], [])
  | some e :: rest =>
    let r := validEmbeddings i (j + 1) rest
    (e :: r.1, (i + j) :: r.2)
  | none :: rest => validEmbeddings i (j + 1) rest

/-- `range(0, stop, step)` for a step that is not zero. -/
def pyRange (stop : Nat) (step : Int) : List Nat :=
  (List.range ((stop + step.toNat - 1) / step.toNat)).map (· * step.toNat)

/-- `texts[i : i + step]` at an index of `pyRange`. -/
def batchAt (texts : List String) (step : Int) (i : Nat) : List String :=
  (texts.drop i).take step.toNat

/-- The loop of `_embed_texts` over the offsets, with its two accumulators. -/
def embedLoop (api : Api E) (batchSize : Int) (texts : List String) :
    List Nat → List E × List Nat → Except String (List E × List Nat)
  | [], acc => .ok acc
  | i :: rest, acc =>
    match embedBatch api i (batchAt texts batchSize i) 4 0 with
    | .error e => .error e
    | .ok reply =>
      let valid := validEmbeddings i 0 reply.val
      embedLoop api batchSize texts rest (acc.1 ++ valid.1, acc.2 ++ valid.2)

/-- `_embed_texts` (`indexing_worker.py:151-224`); `range` refuses a step of zero. -/
def embedTexts (api : Api E) (batchSize : Int) (texts : List String) :
    Except String (List E × List Nat) :=
  if batchSize = 0 then .error "range() arg 3 must not be zero"
  else embedLoop api batchSize texts (pyRange texts.length batchSize) ([], [])

end Api

/-! ### Merging cached and new embeddings -/

section Batch

variable {H E : Type}

/-- The merge at the end of `batch_embed` over the indices (`indexing_worker.py:273-283`). -/
def mergeResults (cached : List (Option E)) (indexToLocal : Nat → Option Nat)
    (localToEmbed : Nat → Option E) : List Nat → Except String (List (Option E))
  | [] => .ok []
  | i :: rest =>
    match cached[i]?.join with
    | some e => (mergeResults cached indexToLocal localToEmbed rest).map (some e :: ·)
    | none =>
      match indexToLocal i with
      | none => .error "KeyError"
      | some pos =>
        match localToEmbed pos with
        | some e => (mergeResults cached indexToLocal localToEmbed rest).map (some e :: ·)
        | none => mergeResults cached indexToLocal localToEmbed rest

variable [DecidableEq H] [DecidableEq E]

/-- The lookup of `batch_embed`; without Redis every text is a miss
(`indexing_worker.py:232-237`). -/
def lookup (contentHash : String → H) (redis : Option (Cache H E)) (texts : List String) :
    List (Option E) × List Nat :=
  match redis with
  | some cache => getCachedEmbeddings contentHash cache texts
  | none => (List.replicate texts.length none, List.range texts.length)

/-- `batch_embed` (`indexing_worker.py:227-292`), and the cache it leaves. -/
def batchEmbed (contentHash : String → H) (api : Api E) (batchSize : Int)
    (redis : Option (Cache H E)) (texts : List String) :
    Except String (List (Option E) × Option (Cache H E)) :=
  if texts = [] then .ok ([], redis)
  else
    let cachedResults := (lookup contentHash redis texts).1
    let missIndices := (lookup contentHash redis texts).2
    if missIndices = [] then .ok (cachedResults, redis)
    else
      let missTexts := missIndices.filterMap fun i ↦ texts[i]?
      match embedTexts api batchSize missTexts with
      | .error e => .error e
      | .ok new =>
        let newEmbeddings := new.1
        let validLocalIndices := new.2
        let stored :=
          if newEmbeddings = [] then redis
          else
            redis.map fun cache ↦
              cacheEmbeddings contentHash cache
                (validLocalIndices.filterMap fun i ↦ missTexts[i]?) newEmbeddings
        let localToEmbed := dictGet (validLocalIndices.zip newEmbeddings)
        let indexToLocal := dictGet missIndices.zipIdx
        (mergeResults cachedResults indexToLocal localToEmbed (List.range texts.length)).map
          fun results ↦ (results, stored)

end Batch

/-! ### Writing the symbols -/

section Upsert

variable {E : Type}

/-- The record merged into a symbol (`indexing_worker.py:357-368`). -/
structure SymbolRecord (E : Type) where
  name : String
  kind : String
  category : String
  filepath : String
  line : Nat
  endLine : Nat
  language : String
  repo : String
  embedding : Option E
  content : String
  deriving DecidableEq

/-- `_symbol_id` (`indexing_worker.py:300-310`) over the digest `sha256(·)[:40]`. -/
def symbolId (digest : String → String) (filepath : String) (startLine : Nat)
    (kind name repo : String) : String :=
  digest (repo ++ ":" ++ filepath ++ ":" ++ kind ++ ":" ++ name ++ ":" ++ toString startLine)

/-- The record of a chunk; the content is cut after 2000 characters. -/
def Chunk.record (c : Chunk) (repo : String) (embedding : Option E) : SymbolRecord E where
  name := c.name
  kind := "definition"
  category := c.kind.value
  filepath := c.filepath
  line := c.startLine
  endLine := c.endLine
  language := c.language
  repo := repo
  embedding := embedding
  content := String.ofList (c.content.toList.take 2000)

/-- A statement that `upsert_chunks` issues. -/
inductive Statement (E : Type) where
  | deleteFile (repo filepath : String)
  | upsert (recordId : String) (record : SymbolRecord E)
  deriving DecidableEq

/-- The UPSERT statements of `upsert_chunks`: the chunks zipped with the embeddings. -/
def chunkUpserts (digest : String → String) (repo : String) (chunks : List Chunk)
    (embeddings : List (Option E)) : List (Statement E) :=
  (chunks.zip embeddings).map fun (c, embedding) ↦
    .upsert (symbolId digest c.filepath c.startLine c.kind.value c.name repo)
      (c.record repo embedding)

/-- `upsert_chunks` (`indexing_worker.py:313-382`). -/
def upsertChunks (digest : String → String) (repo : String) (chunks : List Chunk)
    (embeddings : List (Option E)) (removedFiles : List String) : List (Statement E) :=
  removedFiles.map (.deleteFile repo) ++ chunkUpserts digest repo chunks embeddings

end Upsert

end GithubAgent.Indexing
