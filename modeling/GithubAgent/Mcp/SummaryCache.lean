import GithubAgent.Base.Transition
import GithubAgent.Mcp.FileSummary
import GithubAgent.Mcp.Memory

/-!
# Summaries and the cache of syntax trees

`read_file_summary` and `_get_or_parse` of `src/mcp_servers/codebase_tools/tools.py`, one call after
the other, while files are written between any two accesses of a call to them. The cache holds
a tree by the path and the time of the last modification, and is emptied when it has too many. What
a summary shows is always of a content that the file had during the call. There are no links.
-/

namespace GithubAgent.Mcp.FileSummary

open GithubAgent.Base GithubAgent.Base.Utf8 GithubAgent.Shared

/-! ### The calls -/

abbrev Path := List String

structure File where
  mtime : Nat
  content : List UInt8

/-- `EXTENSION_MAP` at the suffix of a path, the tree that the parser of its language makes, the
patterns of a language, and the text of the error of a path with a null. -/
structure Tools where
  repoPath : Path
  extensionMap : Path → Option String
  parse : Path → List UInt8 → Option SourceNode
  patterns : String → List SummaryPattern
  nullByte : String

inductive Refusal where
  | value (text : String)
  | fileNotFound (text : String)

/-- `_resolve_and_validate` (`tools.py:197-219`). -/
def resolveAndValidate (tools : Tools) (filePath : String) : Except Refusal Path :=
  if '\x00' ∈ filePath.toList then .error (.value tools.nullByte)
  else
    let resolved := Memory.resolve (joinPath tools.repoPath filePath)
    if tools.repoPath.isPrefixOf resolved then .ok resolved
    else .error (.value ("Invalid path: outside repository (" ++ Memory.pathText resolved ++
      " not in " ++ Memory.pathText tools.repoPath ++ ")"))

/-- The dict that is returned. -/
structure Summary where
  file : String
  language : String
  found : Extracted
  totalLines : Nat

/-- Where a call stands: the file exists; its text is read; its tree is not in the cache. -/
inductive Stage where
  | opened
  | read (sourceText : List Char)
  | missed (sourceText : List Char) (mtime : Nat)

/-- A call, with the contents that its file has had since it began. -/
structure Call where
  filePath : String
  path : Path
  maxLines : Nat
  seen : List (List UInt8)
  stage : Stage

structure State where
  files : Path → Option File
  lastWrite : Path → Nat
  cache : List ((Path × Nat) × (SourceNode × List UInt8))
  call : Option Call
  answers : List (Call × Except Refusal Summary)

/-- What happens: a file is written, or removed; a call begins, reads the text, looks into the
cache, and reads the bytes. -/
inductive Event where
  | write (path : Path) (file : File)
  | remove (path : Path)
  | ask (filePath : String) (maxLines : Int)
  | readText
  | stat
  | readBytes

/-- `_AST_CACHE_MAX_SIZE` (`tools.py:41`). -/
def astCacheMaxSize : Nat := 500

/-- `resolved.read_text(encoding="utf-8", errors="replace")`. -/
def textOf (content : List UInt8) : List Char := universalNewlines (decode content)

section Model

variable (tools : Tools)

/-- The answer from the patterns (`tools.py:836`). -/
def regexSummary (call : Call) (sourceText : List Char) : Summary :=
  let language := (tools.extensionMap call.path).getD "unknown"
  { file := call.filePath.map fun c ↦ if c = '\\' then '/' else c
    language
    found := readSummaryRegex (tools.patterns language) sourceText call.maxLines
    totalLines := (splitlines sourceText).length }

/-- What `_read_summary_treesitter` makes of a tree (`tools.py:846-866`). -/
def treeSummary (language : String) (root : SourceNode) (source : List UInt8) (maxLines : Nat) :
    Extracted :=
  let found := if language = "python" then extractPythonSummary root source maxLines
    else ⟨none, [], []⟩
  { found with
    imports := found.imports.take 20
    signatures := found.signatures.take maxLines }

/-- The answer from a tree (`tools.py:827-833`). -/
def treesitterSummary (call : Call) (sourceText : List Char) (root : SourceNode)
    (source : List UInt8) : Summary :=
  let language := (tools.extensionMap call.path).getD "unknown"
  { file := call.filePath.map fun c ↦ if c = '\\' then '/' else c
    language
    found := treeSummary language root source call.maxLines
    totalLines := (splitlines sourceText).length }

def State.answer (s : State) (call : Call) (result : Except Refusal Summary) : State :=
  { s with call := none, answers := s.answers ++ [(call, result)] }

/-- The contents of a file are noted by a call for it. -/
def State.note (s : State) (path : Path) (content : List UInt8) : Option Call :=
  s.call.map fun call ↦
    if call.path = path then { call with seen := call.seen ++ [content] } else call

/-- One step. -/
def State.step (s : State) : Event → Option State
  | .write path file => some { s with
      files := Function.update s.files path (some file)
      lastWrite := Function.update s.lastWrite path file.mtime
      call := s.note path file.content }
  | .remove path => some { s with files := Function.update s.files path none }
  -- `tools.py:810-814`
  | .ask filePath maxLines =>
    match s.call with
    | some _ => none
    | none =>
      let bound := (min (max 1 maxLines) 200).toNat
      match resolveAndValidate tools filePath with
      | .error refusal => some (s.answer ⟨filePath, [], bound, [], .opened⟩ (.error refusal))
      | .ok path =>
        match s.files path with
        | none => some (s.answer ⟨filePath, path, bound, [], .opened⟩
            (.error (.fileNotFound ("File not found: " ++ filePath))))
        | some file => some { s with
            call := some ⟨filePath, path, bound, [file.content], .opened⟩ }
  -- `tools.py:819-836`
  | .readText =>
    match s.call with
    | some call =>
      match call.stage with
      | .opened =>
        match s.files call.path with
        | none => some (s.answer call
            (.error (.fileNotFound ("Cannot read file: " ++ call.filePath))))
        | some file =>
          if (tools.extensionMap call.path).getD "unknown" = "unknown" then
            some (s.answer call (.ok (regexSummary tools call (textOf file.content))))
          else some { s with call := some { call with stage := .read (textOf file.content) } }
      | _ => none
    | none => none
  -- `tools.py:236-248`
  | .stat =>
    match s.call with
    | some call =>
      match call.stage with
      | .read sourceText =>
        match s.files call.path with
        | none => some (s.answer call (.ok (regexSummary tools call sourceText)))
        | some file =>
          let cache := if astCacheMaxSize < s.cache.length then [] else s.cache
          match cache.lookup (call.path, file.mtime) with
          | some (root, source) => some ({ s with cache := cache }.answer call
              (.ok (treesitterSummary tools call sourceText root source)))
          | none => some { s with
              cache := cache
              call := some { call with stage := .missed sourceText file.mtime } }
      | _ => none
    | none => none
  -- `tools.py:250-275`
  | .readBytes =>
    match s.call with
    | some call =>
      match call.stage with
      | .missed sourceText mtime =>
        match s.files call.path with
        | none => some (s.answer call (.ok (regexSummary tools call sourceText)))
        | some file =>
          match tools.parse call.path file.content with
          | none => some (s.answer call (.ok (regexSummary tools call sourceText)))
          | some root => some ({ s with
              cache := ((call.path, mtime), (root, file.content)) :: s.cache }.answer call
                (.ok (treesitterSummary tools call sourceText root file.content)))
      | _ => none
    | none => none

/-- The tools, before the first call. -/
def summaries : System State Event where
  init s := s.cache = [] ∧ s.call = none ∧ s.answers = [] ∧
    ∀ path file, s.files path = some file → file.mtime ≤ s.lastWrite path
  step := State.step tools

end Model

/-- Whoever writes a file gives it a later time than it ever had. -/
def advancing (s : State) : Event → Prop
  | .write path file => s.lastWrite path < file.mtime
  | _ => True

instance (s : State) : (e : Event) → Decidable (advancing s e)
  | .write path file => inferInstanceAs (Decidable (s.lastWrite path < file.mtime))
  | .remove _ | .ask _ _ | .readText | .stat | .readBytes => .isTrue trivial

/-! ### What is shown -/

section Reach

variable {tools : Tools}

/-- The content that a summary was made of: the lines are counted in one content that the file has
had during the call, and the rest is of the same one, by the patterns, or of the tree of one. -/
def Summary.Of (tools : Tools) (call : Call) (summary : Summary) : Prop :=
  ∃ content ∈ call.seen, summary.totalLines = (splitlines (textOf content)).length ∧
    (summary.found = readSummaryRegex (tools.patterns summary.language) (textOf content)
        call.maxLines ∨
      ∃ source ∈ call.seen, ∃ root, tools.parse call.path source = some root ∧
        summary.found = treeSummary summary.language root source call.maxLines ∧
        (summary.language = "python" → summary.found.signatures =
          (definitionsFrom source none root.children).take call.maxLines))

/-- A call that is answered, or goes on. -/
structure Call.Kept (tools : Tools) (files : Path → Option File) (lastWrite : Path → Nat)
    (cached : Nat) (call : Call) : Prop where
  inside : tools.repoPath <+: call.path
  bound : 1 ≤ call.maxLines ∧ call.maxLines ≤ 200
  current : ∀ file, files call.path = some file → file.content ∈ call.seen
  read : ∀ sourceText, call.stage = .read sourceText →
    ∃ content ∈ call.seen, sourceText = textOf content
  missed : ∀ sourceText mtime, call.stage = .missed sourceText mtime →
    (∃ content ∈ call.seen, sourceText = textOf content) ∧ mtime ≤ lastWrite call.path ∧
      cached ≤ astCacheMaxSize

/-- An entry is the tree of its content, which is that of the file if the file has its time. -/
structure CacheRight (tools : Tools) (files : Path → Option File) (lastWrite : Path → Nat)
    (path : Path) (mtime : Nat) (root : SourceNode) (source : List UInt8) : Prop where
  parsed : tools.parse path source = some root
  past : mtime ≤ lastWrite path
  current : ∀ file, files path = some file → file.mtime = mtime → file.content = source

/-- A call and its answer. -/
def AnswerRight (tools : Tools) (call : Call) : Except Refusal Summary → Prop
  | .error _ => True
  | .ok summary => tools.repoPath <+: call.path ∧ (1 ≤ call.maxLines ∧ call.maxLines ≤ 200) ∧
      summary.Of tools call

structure Kept (tools : Tools) (s : State) : Prop where
  times : ∀ path file, s.files path = some file → file.mtime ≤ s.lastWrite path
  cached : ∀ key tree, (key, tree) ∈ s.cache →
    CacheRight tools s.files s.lastWrite key.1 key.2 tree.1 tree.2
  size : s.cache.length ≤ astCacheMaxSize + 1
  call : ∀ call, s.call = some call →
    call.Kept tools s.files s.lastWrite s.cache.length
  answers : ∀ a ∈ s.answers, AnswerRight tools a.1 a.2

variable {s s' : State} {call : Call}

theorem Kept.answer (h : Kept tools s) {result : Except Refusal Summary}
    (hright : AnswerRight tools call result) : Kept tools (s.answer call result) where
  times := h.times
  cached := h.cached
  size := h.size
  call := nofun
  answers := by
    intro a ha
    rcases List.mem_append.mp ha with ha | ha
    · exact h.answers a ha
    · rw [List.mem_singleton.mp ha]
      exact hright

section Write

variable {files : Path → Option File} {lastWrite : Path → Nat} {path : Path} {file : File}

theorem times_write (h : ∀ path file, files path = some file → file.mtime ≤ lastWrite path)
    (other : Path) (found : File)
    (hfound : Function.update files path (some file) other = some found) :
    found.mtime ≤ Function.update lastWrite path file.mtime other := by
  by_cases hpath : other = path
  · subst hpath
    rw [Function.update_self] at hfound ⊢
    cases hfound
    exact Nat.le_refl _
  · rw [Function.update_of_ne hpath] at hfound ⊢
    exact h other found hfound

/-- The time of a new content is none that a tree was stored under. -/
theorem CacheRight.write {other : Path} {mtime : Nat} {root : SourceNode} {source : List UInt8}
    (h : CacheRight tools files lastWrite other mtime root source)
    (hlater : lastWrite path < file.mtime) :
    CacheRight tools (Function.update files path (some file))
      (Function.update lastWrite path file.mtime) other mtime root source := by
  have hpast := h.past
  by_cases hpath : other = path
  · subst hpath
    refine ⟨h.parsed, ?_, ?_⟩
    · rw [Function.update_self]
      omega
    · intro found hfound hmtime
      rw [Function.update_self] at hfound
      cases hfound
      omega
  · refine ⟨h.parsed, ?_, ?_⟩
    · rw [Function.update_of_ne hpath]
      exact hpast
    · rw [Function.update_of_ne hpath]
      exact h.current

theorem Call.Kept.write {cached : Nat} (h : call.Kept tools files lastWrite cached)
    (hlater : lastWrite path < file.mtime) :
    (if call.path = path then { call with seen := call.seen ++ [file.content] } else call).Kept
      tools (Function.update files path (some file))
      (Function.update lastWrite path file.mtime) cached := by
  by_cases hpath : call.path = path
  · subst hpath
    rw [if_pos rfl]
    refine ⟨h.inside, h.bound, ?_, ?_, ?_⟩
    · intro found hfound
      rw [Function.update_self] at hfound
      cases hfound
      exact List.mem_append_right _ List.mem_cons_self
    · intro sourceText hstage
      obtain ⟨content, hmem, heq⟩ := h.read sourceText hstage
      exact ⟨content, List.mem_append_left _ hmem, heq⟩
    · intro sourceText mtime hstage
      obtain ⟨⟨content, hmem, heq⟩, hpast, hsize⟩ := h.missed sourceText mtime hstage
      refine ⟨⟨content, List.mem_append_left _ hmem, heq⟩, ?_, hsize⟩
      rw [Function.update_self]
      omega
  · rw [if_neg hpath]
    refine ⟨h.inside, h.bound, ?_, h.read, ?_⟩
    · rw [Function.update_of_ne hpath]
      exact h.current
    · rw [Function.update_of_ne hpath]
      exact h.missed

/-- A file that is removed was there before. -/
theorem of_removed {other : Path} {found : File}
    (h : Function.update files path none other = some found) : files other = some found := by
  by_cases hpath : other = path
  · rw [hpath, Function.update_self] at h
    cases h
  · rwa [Function.update_of_ne hpath] at h

end Write

theorem Kept.write (h : Kept tools s) {path : Path} {file : File}
    (hlater : s.lastWrite path < file.mtime) :
    Kept tools { s with
      files := Function.update s.files path (some file)
      lastWrite := Function.update s.lastWrite path file.mtime
      call := s.note path file.content } where
  times := times_write h.times
  cached key tree hentry := (h.cached key tree hentry).write hlater
  size := h.size
  call := by
    intro call hcall
    obtain ⟨before, hbefore, rfl⟩ := Option.map_eq_some_iff.mp hcall
    exact (h.call before hbefore).write hlater
  answers := h.answers

theorem Kept.remove (h : Kept tools s) (path : Path) :
    Kept tools { s with files := Function.update s.files path none } where
  times other found hfound := h.times other found (of_removed hfound)
  cached key tree hentry :=
    { h.cached key tree hentry with
      current := fun found hfound ↦ (h.cached key tree hentry).current found (of_removed hfound) }
  size := h.size
  call call hcall :=
    { h.call call hcall with
      current := fun found hfound ↦ (h.call call hcall).current found (of_removed hfound) }
  answers := h.answers

theorem of_resolveAndValidate {filePath : String} {path : Path}
    (h : resolveAndValidate tools filePath = .ok path) : tools.repoPath <+: path := by
  simp only [resolveAndValidate] at h
  split at h
  · cases h
  · split at h
    · next hprefix =>
      cases h
      exact List.isPrefixOf_iff_prefix.mp hprefix
    · cases h

theorem clamp_maxLines (maxLines : Int) :
    1 ≤ (min (max 1 maxLines) 200).toNat ∧ (min (max 1 maxLines) 200).toNat ≤ 200 := by
  omega

theorem regexSummary_of {sourceText : List Char}
    (htext : ∃ content ∈ call.seen, sourceText = textOf content) :
    (regexSummary tools call sourceText).Of tools call := by
  obtain ⟨content, hmem, rfl⟩ := htext
  exact ⟨content, hmem, rfl, .inl rfl⟩

theorem signatures_treeSummary (root : SourceNode) (source : List UInt8) (maxLines : Nat) :
    (treeSummary "python" root source maxLines).signatures =
      (definitionsFrom source none root.children).take maxLines := by
  have hshows := shows_extractPythonSummary root source maxLines
  show (extractPythonSummary root source maxLines).signatures.take maxLines = _
  rw [hshows.signatures, List.take_take, Nat.min_self]
  rfl

theorem treesitterSummary_of {sourceText : List Char} {root : SourceNode} {source : List UInt8}
    (htext : ∃ content ∈ call.seen, sourceText = textOf content)
    (hsource : source ∈ call.seen) (hparsed : tools.parse call.path source = some root) :
    (treesitterSummary tools call sourceText root source).Of tools call := by
  obtain ⟨content, hmem, rfl⟩ := htext
  refine ⟨content, hmem, rfl, .inr ⟨source, hsource, root, hparsed, rfl, ?_⟩⟩
  intro hpython
  show (treeSummary (treesitterSummary tools call (textOf content) root source).language root
    source call.maxLines).signatures = _
  rw [hpython]
  exact signatures_treeSummary root source call.maxLines

/-- What a step of the call keeps. -/
theorem Kept.setCall (h : Kept tools s)
    (hcall : call.Kept tools s.files s.lastWrite s.cache.length) :
    Kept tools { s with call := some call } where
  times := h.times
  cached := h.cached
  size := h.size
  call := by
    intro other hother
    cases hother
    exact hcall
  answers := h.answers

/-- The cache may be emptied before it is asked. -/
theorem Kept.evict (h : Kept tools s) {cache : List ((Path × Nat) × (SourceNode × List UInt8))}
    (hcache : cache = if astCacheMaxSize < s.cache.length then [] else s.cache) :
    (∀ key tree, (key, tree) ∈ cache →
        CacheRight tools s.files s.lastWrite key.1 key.2 tree.1 tree.2) ∧
      cache.length ≤ astCacheMaxSize := by
  subst hcache
  split
  · exact ⟨nofun, Nat.zero_le _⟩
  · next hroom => exact ⟨h.cached, Nat.le_of_not_lt hroom⟩

theorem Kept.step (h : Kept tools s) {e : Event} (hok : advancing s e)
    (hstep : State.step tools s e = some s') : Kept tools s' := by
  cases e with
  | write path file =>
    cases hstep
    exact h.write hok
  | remove path =>
    cases hstep
    exact h.remove path
  | ask filePath maxLines =>
    simp only [State.step] at hstep
    split at hstep
    · cases hstep
    · split at hstep
      · cases hstep
        exact h.answer trivial
      · next path hpath =>
        split at hstep
        · cases hstep
          exact h.answer trivial
        · next file hfile =>
          cases hstep
          apply h.setCall
          refine ⟨of_resolveAndValidate hpath, clamp_maxLines maxLines, ?_, nofun, nofun⟩
          intro found hfound
          rw [hfile] at hfound
          cases hfound
          exact List.mem_singleton_self _
  | readText =>
    simp only [State.step] at hstep
    split at hstep
    · next call hcall =>
      have hkept := h.call call hcall
      split at hstep
      · next hstage =>
        split at hstep
        · cases hstep
          exact h.answer trivial
        · next file hfile =>
          have htext : ∃ content ∈ call.seen, textOf file.content = textOf content :=
            ⟨file.content, hkept.current file hfile, rfl⟩
          split at hstep
          · cases hstep
            exact h.answer ⟨hkept.inside, hkept.bound, regexSummary_of htext⟩
          · cases hstep
            apply h.setCall
            refine ⟨hkept.inside, hkept.bound, hkept.current, ?_, nofun⟩
            intro sourceText hread
            cases hread
            exact htext
      · cases hstep
    · cases hstep
  | stat =>
    simp only [State.step] at hstep
    split at hstep
    · next call hcall =>
      have hkept := h.call call hcall
      split at hstep
      · next sourceText hstage =>
        have htext := hkept.read sourceText hstage
        split at hstep
        · cases hstep
          exact h.answer ⟨hkept.inside, hkept.bound, regexSummary_of htext⟩
        · next file hfile =>
          have hevict := h.evict rfl
          have hcache : Kept tools { s with
              cache := if astCacheMaxSize < s.cache.length then [] else s.cache
              call := none } :=
            ⟨h.times, hevict.1, Nat.le_succ_of_le hevict.2, nofun, h.answers⟩
          split at hstep
          · next root source hlookup =>
            cases hstep
            have hentry : CacheRight tools s.files s.lastWrite call.path file.mtime root source :=
              hevict.1 _ _ (mem_of_lookup hlookup)
            have hsource : source ∈ call.seen := by
              rw [← hentry.current file hfile rfl]
              exact hkept.current file hfile
            exact hcache.answer ⟨hkept.inside, hkept.bound,
              treesitterSummary_of htext hsource hentry.parsed⟩
          · cases hstep
            apply hcache.setCall
            refine ⟨hkept.inside, hkept.bound, hkept.current, nofun, ?_⟩
            intro text mtime hmissed
            cases hmissed
            exact ⟨htext, h.times call.path file hfile, hevict.2⟩
      · cases hstep
    · cases hstep
  | readBytes =>
    simp only [State.step] at hstep
    split at hstep
    · next call hcall =>
      have hkept := h.call call hcall
      split at hstep
      · next sourceText mtime hstage =>
        obtain ⟨htext, hpast, hsize⟩ := hkept.missed sourceText mtime hstage
        split at hstep
        · cases hstep
          exact h.answer ⟨hkept.inside, hkept.bound, regexSummary_of htext⟩
        · next file hfile =>
          split at hstep
          · cases hstep
            exact h.answer ⟨hkept.inside, hkept.bound, regexSummary_of htext⟩
          · next root hparse =>
            cases hstep
            have hstored : Kept tools { s with
                cache := ((call.path, mtime), (root, file.content)) :: s.cache
                call := none } := by
              refine ⟨h.times, ?_, Nat.succ_le_succ hsize, nofun, h.answers⟩
              intro key tree hentry
              rcases List.mem_cons.mp hentry with hentry | hentry
              · cases hentry
                refine ⟨hparse, hpast, ?_⟩
                intro found hfound _
                rw [hfile] at hfound
                cases hfound
                rfl
              · exact h.cached key tree hentry
            exact hstored.answer ⟨hkept.inside, hkept.bound,
              treesitterSummary_of htext (hkept.current file hfile) hparse⟩
      · cases hstep
    · cases hstep

theorem kept_of_reach (hreach : (summaries tools).ReachWhen advancing s) : Kept tools s := by
  apply hreach.invariant
  · rintro t ⟨hcache, hcall, hanswers, htimes⟩
    refine ⟨htimes, ?_, ?_, ?_, ?_⟩
    · intro key tree hentry
      rw [hcache] at hentry
      cases hentry
    · rw [hcache]
      exact Nat.zero_le _
    · intro call hsome
      rw [hcall] at hsome
      cases hsome
    · intro a ha
      rw [hanswers] at ha
      cases ha
  · intro t e t' hkept hok hstep
    exact hkept.step hok hstep

/-- What is true of a summary that was returned. -/
structure Summary.Right (tools : Tools) (call : Call) (summary : Summary) : Prop where
  inside : tools.repoPath <+: call.path
  bound : 1 ≤ call.maxLines ∧ call.maxLines ≤ 200
  of : summary.Of tools call
  signatures : summary.found.signatures.length ≤ call.maxLines
  imports : summary.found.imports.length ≤ 20

theorem Summary.Of.length_le {summary : Summary} (h : summary.Of tools call) :
    summary.found.signatures.length ≤ call.maxLines ∧ summary.found.imports.length ≤ 20 := by
  obtain ⟨content, -, -, hfound | ⟨source, -, root, -, hfound, -⟩⟩ := h
  · rw [hfound]
    refine ⟨?_, List.length_take_le _ _⟩
    show (regexSignatures _ _ [] _).length ≤ _
    rw [regexSignatures_eq _ (Nat.zero_le _)]
    exact List.length_take_le _ _
  · rw [hfound]
    exact ⟨List.length_take_le _ _, List.length_take_le _ _⟩

/-- However files are written while summaries are asked for, as long as a file that is written gets
a later time: a summary shows a content that its file had during the call, from the cache or not,
and the cache stays within its bound. -/
theorem summaries_of_reach (hreach : (summaries tools).ReachWhen advancing s) :
    s.cache.length ≤ astCacheMaxSize + 1 ∧
      ∀ call summary, (call, .ok summary) ∈ s.answers → summary.Right tools call := by
  have hkept := kept_of_reach hreach
  refine ⟨hkept.size, ?_⟩
  intro call summary hanswer
  obtain ⟨hinside, hbound, hof⟩ := hkept.answers _ hanswer
  exact ⟨hinside, hbound, hof, hof.length_le.1, hof.length_le.2⟩

end Reach

/-- The tree of a file with one function that has one letter for a name. -/
def sampleRoot : SourceNode :=
  .node "module" true 0 14 0 1 [.node "function_definition" true 0 13 0 0
    [.node "def" false 0 3 0 0 [], .node "identifier" true 4 5 0 0 [],
      .node "parameters" true 5 7 0 0 [.node "(" false 5 6 0 0 [], .node ")" false 6 7 0 0 []],
      .node ":" false 7 8 0 0 [],
      .node "block" true 9 13 0 0 [.node "pass_statement" true 9 13 0 0 []]]]

def sampleTools : Tools where
  repoPath := ["repo"]
  extensionMap _ := some "python"
  parse _ source := if source.length = 14 then some sampleRoot else none
  patterns _ := []
  nullByte := "embedded null byte"

/-- A file is summed up twice, the second time from the cache, and once more when it has changed. -/
theorem summaries_of_reach_changed : ∃ s : State,
    (s.answers.map fun a ↦ a.2.toOption.map fun summary ↦
        summary.found.signatures.map Signature.name) =
      [some [['f']], some [['f']], some [['g']]] ∧
      s.cache.length ≤ astCacheMaxSize + 1 ∧
      ∀ call summary, (call, .ok summary) ∈ s.answers → summary.Right sampleTools call := by
  obtain ⟨s, hs, hlogs⟩ := System.exists_reachWhen (summaries sampleTools) advancing
    (fun s ↦ (s.answers.map fun a ↦ a.2.toOption.map fun summary ↦
        summary.found.signatures.map Signature.name) =
      [some [['f']], some [['f']], some [['g']]])
    (s := ⟨fun _ ↦ none, fun _ ↦ 0, [], none, []⟩)
    [.write ["repo", "a.py"] ⟨1, encode "def f(): pass\n".toList⟩,
      .ask "a.py" 80, .readText, .stat, .readBytes, .ask "a.py" 80, .readText, .stat,
      .write ["repo", "a.py"] ⟨2, encode "def g(): pass\n".toList⟩,
      .ask "a.py" 80, .readText, .stat, .readBytes] ⟨rfl, rfl, rfl, nofun⟩ (by decide +kernel)
  exact ⟨s, hlogs, summaries_of_reach hs⟩

end GithubAgent.Mcp.FileSummary
