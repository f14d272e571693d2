import GithubAgent.Base.Lists
import GithubAgent.Webhook.Command

/-!
# The history of a thread in the prompt

`src/shared/thread_history.py` fetches the comments of an issue, a pull request or a discussion page
by page and writes them into one text. How GitHub splits the comments and which requests it answers
are given.
-/

namespace GithubAgent.Shared.ThreadHistory

open GithubAgent.Webhook

/-! ### What GitHub answers -/

/-- The `user` or `author` of an entry, which is null for an account that was deleted. -/
inductive RawUser where
  | absent
  | null
  | user (login : Option String)

/-- A reply below a comment of a discussion. -/
structure RawReply where
  author : RawUser
  createdAt : Option String
  body : Option String

/-- A comment, with the fields of the three kinds of threads. -/
structure RawComment where
  id : Nat
  user : RawUser
  createdAt : Option String := none
  body : Option String := none
  path : Option String := none
  originalLine : Option (Option Int) := none
  replies : List RawReply := []

/-- The answer to the request for a page. `failed` is any status but 200, an error in the GraphQL
answer, and an exception of the client. -/
inductive Response where
  | page (raws : List RawComment) (hasNextPage : Bool)
  | failed

/-- The comments of a thread from the first on, as GitHub splits them into pages of at most `limit`,
and which requests it answers. -/
structure Listing (limit : Nat) where
  pages : List (List RawComment)
  answers : Nat → Bool
  small : ∀ p ∈ pages, p.length ≤ limit
  distinct : (pages.flatten.map RawComment.id).Nodup

/-- The answer to the request for the page with this number, from 0 on. -/
def Listing.response {limit : Nat} (l : Listing limit) (page : Nat) : Response :=
  if l.answers page then .page (l.pages.getD page []) (decide (page + 1 < l.pages.length))
  else .failed

/-- `thread_type`. -/
inductive ThreadType where
  | issue
  | pr
  | discussion
  deriving DecidableEq

/-! ### Comments -/

structure Reply where
  author : String
  createdAt : String
  body : String

/-- The dict of a comment. The `id` is not in it: it tells comments with one text apart. -/
structure Comment where
  id : Nat
  author : String
  createdAt : String
  body : String
  context : Option String := none
  replies : List Reply := []

/-- `c.get("user", {}).get("login", "unknown")`, which raises when the user is null. -/
def userLogin : RawUser → Option String
  | .absent => some "unknown"
  | .null => none
  | .user login => some (login.getD "unknown")

/-- `(node.get("author") or {}).get("login", "unknown")`. -/
def authorLogin (user : RawUser) : String := (userLogin user).getD "unknown"

/-- The dict of an issue comment (`thread_history.py:174-180`). -/
def issueComment (c : RawComment) : Option Comment :=
  (userLogin c.user).map fun author ↦
    { id := c.id
      author := author
      createdAt := c.createdAt.getD ""
      body := c.body.getD "" }

/-- `c.get('original_line', '?')` in a text. -/
def originalLineText : Option (Option Int) → String
  | none => "?"
  | some none => "None"
  | some (some line) => toString line

/-- The dict of a review comment (`thread_history.py:223-231`). -/
def reviewComment (c : RawComment) : Option Comment :=
  (issueComment c).map fun comment ↦
    match c.path with
    | some path =>
      if path = "" then comment
      else { comment with context := some (path ++ ":" ++ originalLineText c.originalLine) }
    | none => comment

/-- The dict of a comment of a discussion (`thread_history.py:315-331`). -/
def discussionComment (node : RawComment) : Comment where
  id := node.id
  author := authorLogin node.user
  createdAt := node.createdAt.getD ""
  body := node.body.getD ""
  replies := node.replies.map fun r ↦ ⟨authorLogin r.author, r.createdAt.getD "", r.body.getD ""⟩

/-! ### Fetching -/

/-- `MAX_COMMENT_PAGES` (`thread_history.py:23`). -/
def maxCommentPages : Nat := 5

/-- `MAX_TOTAL_COMMENTS` (`thread_history.py:24`). -/
def maxTotalComments : Nat := 500

/-- `per_page` of the requests (`thread_history.py:156, 212`). -/
def perPage : Nat := 100

/-- The loop over the comments of a page, and whether it goes through. -/
def appendComments (parse : RawComment → Option Comment) (comments : List Comment) :
    List RawComment → List Comment × Bool
  | [] => (comments, true)
  | c :: rest =>
    match parse c with
    | some comment => appendComments parse (comments ++ [comment]) rest
    | none => (comments, false)

/-- The loop over the pages of the REST API (`thread_history.py:155-188, 211-239`). -/
def restLoop (parse : RawComment → Option Comment) (api : Nat → Response) :
    (left page : Nat) → (comments : List Comment) → List Comment
  | 0, _, comments => comments
  | left + 1, page, comments =>
    match api page with
    | .failed => comments
    | .page [] _ => comments
    | .page raws _ =>
      match appendComments parse comments raws with
      | (comments, false) => comments
      | (comments, true) =>
        if maxTotalComments ≤ comments.length then comments.take maxTotalComments
        else if raws.length < perPage then comments
        else restLoop parse api left (page + 1) comments

/-- `_fetch_comments` (`thread_history.py:137-190`). -/
def fetchComments (api : Nat → Response) (maxComments : Nat) : List Comment :=
  (restLoop issueComment api maxCommentPages 0 []).take maxComments

/-- `_fetch_pr_review_comments` (`thread_history.py:193-241`). -/
def fetchPrReviewComments (api : Nat → Response) (maxComments : Nat) : List Comment :=
  (restLoop reviewComment api maxCommentPages 0 []).take maxComments

/-- The loop over the pages of the GraphQL API (`thread_history.py:266-344`). -/
def graphqlLoop (api : Nat → Response) :
    (left page : Nat) → (comments : List Comment) → List Comment
  | 0, _, comments => comments
  | left + 1, page, comments =>
    match api page with
    | .failed => comments
    | .page raws hasNextPage =>
      let comments := comments ++ raws.map discussionComment
      if hasNextPage = false then comments
      else if maxTotalComments ≤ comments.length then comments.take maxTotalComments
      else graphqlLoop api left (page + 1) comments

/-- The comments of `_fetch_discussion` (`thread_history.py:244-346`). -/
def fetchDiscussion (api : Nat → Response) (maxComments : Nat) : List Comment :=
  (graphqlLoop api maxCommentPages 0 []).take maxComments

/-! ### The history -/

/-- `ThreadHistoryConfig` (`thread_history.py:77-95`). -/
structure Config where
  enabled : Bool := true
  maxComments : Nat := 100
  includePrReviews : Bool := true
  includeIssueBody : Bool := true

/-- The dict of the issue, the pull request or the discussion itself. -/
structure IssueBody where
  title : String
  body : String
  author : String
  createdAt : String
  state : String
  labels : List String
  category : String := ""

/-- A thread. `body` is what a request for it yields. A page of a discussion has at most
`min(max_comments, 100)` comments. -/
structure Thread (maxComments : Nat) where
  type : ThreadType
  body : Option IssueBody
  comments : Listing (if type = .discussion then min maxComments perPage else perPage)
  reviewComments : Listing perPage

/-- The arguments of `_format_thread_history`. -/
structure History where
  issueBody : Option IssueBody
  comments : List Comment
  reviewComments : Option (List Comment)
  isPr : Bool
  isDiscussion : Bool
  truncated : Bool

section Gather

variable (config : Config) (t : Thread config.maxComments)

/-- The review comments are asked for. -/
def wantsReviews : Bool := t.type == .pr && config.includePrReviews

/-- What `fetch_and_format_thread_history` collects (`thread_history.py:451-487`). -/
def gather : History :=
  let isDiscussion := t.type == .discussion
  let comments :=
    if isDiscussion then fetchDiscussion t.comments.response config.maxComments
    else fetchComments t.comments.response config.maxComments
  { issueBody :=
      if isDiscussion then (if t.comments.answers 0 then t.body else none)
      else if config.includeIssueBody then t.body else none
    comments := comments
    reviewComments :=
      if wantsReviews config t then
        some (fetchPrReviewComments t.reviewComments.response config.maxComments)
      else none
    isPr := t.type == .pr
    isDiscussion := isDiscussion
    truncated := decide (config.maxComments ≤ comments.length) }

end Gather

/-! ### The text -/

/-- `value.strip() or default`. -/
def strippedOr (default value : String) : String :=
  if strip value.toList = [] then default else String.ofList (strip value.toList)

/-- The heading of the thread (`thread_history.py:367-378`). -/
def bodyHeader (threadLabel : String) (body : IssueBody) : String :=
  "## Original " ++ threadLabel ++ ": " ++ body.title ++
    (if body.state = "" then "" else " (" ++ body.state ++ ")") ++
    (if body.labels = [] then "" else " [Labels: " ++ ", ".intercalate body.labels ++ "]") ++
    (if body.category = "" then "" else " [Category: " ++ body.category ++ "]")

/-- The line about the author (`thread_history.py:380-383`). -/
def authorLine (body : IssueBody) : String :=
  "**Author:** " ++ body.author ++
    (if body.createdAt = "" then "" else " | **Created:** " ++ body.createdAt)

/-- The notice (`thread_history.py:388-391`). -/
def truncationNotice : String :=
  "\n---\n*Older comments truncated — only recent history shown.*\n---"

/-- The author, the time and the text of an entry. -/
def entry (heading author createdAt context body : String) : String :=
  heading ++ "\n**" ++ author ++ "**" ++ (if createdAt = "" then "" else " | " ++ createdAt) ++
    context ++ "\n" ++ strippedOr "(no content)" body

/-- The entries of a comment with its replies (`thread_history.py:395-410`). -/
def commentParts (c : Comment) (i : Nat) : List String :=
  entry ("### Comment " ++ toString i) c.author c.createdAt "" c.body ::
    (c.replies.zipIdx 1).map fun (r, j) ↦
      entry ("#### Reply " ++ toString j) r.author r.createdAt "" r.body

/-- The entry of a review comment (`thread_history.py:414-422`). -/
def reviewPart (c : Comment) (i : Nat) : String :=
  entry ("### Review Comment " ++ toString i) c.author c.createdAt
    (match c.context with
      | some context => " | `" ++ context ++ "`"
      | none => "") c.body

namespace History

variable (h : History)

/-- `thread_label`. -/
def threadLabel : String :=
  if h.isDiscussion then "Discussion" else if h.isPr then "Pull Request" else "Issue"

/-- The parts about the thread itself. -/
def bodyParts : List String :=
  match h.issueBody with
  | some body =>
    [bodyHeader h.threadLabel body, authorLine body,
      strippedOr "(No description provided)" body.body]
  | none => []

/-- The parts about the comments. -/
def commentsParts : List String :=
  if h.comments = [] then []
  else ("\n## Comments (" ++ toString h.comments.length ++ ")") ::
    (h.comments.zipIdx 1).flatMap fun (c, i) ↦ commentParts c i

/-- The parts about the review comments. -/
def reviewParts : List String :=
  match h.reviewComments with
  | some (c :: rest) =>
    ("\n## Review Comments (" ++ toString (c :: rest).length ++ ")") ::
      ((c :: rest).zipIdx 1).map fun (c, i) ↦ reviewPart c i
  | _ => []

/-- The parts that `_format_thread_history` joins. -/
def parts : List String :=
  h.bodyParts ++ (if h.truncated then [truncationNotice] else []) ++ h.commentsParts ++
    h.reviewParts

/-- `_format_thread_history` (`thread_history.py:349-427`). -/
def format : String :=
  if h.parts = [] then ""
  else "<thread_history>\n" ++ "\n\n".intercalate h.parts ++ "\n</thread_history>"

end History

/-- `fetch_and_format_thread_history` (`thread_history.py:430-496`). -/
def fetchAndFormatThreadHistory (config : Config) (t : Thread config.maxComments) : String :=
  if config.enabled then (gather config t).format else ""

/-! ### The notice in the text -/

/-- The first two characters of a part. -/
def leading (part : String) : List Char := part.toList.take 2

theorem leading_append (start rest : String) (h : 2 ≤ start.toList.length) :
    leading (start ++ rest) = leading start := by
  rw [leading, String.toList_append, List.take_append_of_le_length h, leading]

/-- A text that was stripped does not begin with a line break. -/
theorem strip_ne_newline (text rest : List Char) : strip text ≠ '\n' :: rest := by
  intro h
  have hstart : (text.dropWhile isSpace).head? = some '\n' := by
    rw [strip_eq] at h
    obtain ⟨more, hmore⟩ := List.rdropWhile_prefix isSpace (l := text.dropWhile isSpace)
    rw [← hmore, h]
    rfl
  have hspace := List.head?_dropWhile_not isSpace text
  rw [hstart] at hspace
  exact absurd hspace (by decide)

theorem ne_notice_of_leading {part : String} (h : leading part ≠ ['\n', '-']) :
    part ≠ truncationNotice := by
  rintro rfl
  exact h rfl

theorem strippedOr_ne_notice (value : String) :
    strippedOr "(No description provided)" value ≠ truncationNotice := by
  rw [strippedOr]
  split
  · exact ne_notice_of_leading (by decide)
  · intro h
    have hlist := congrArg String.toList h
    rw [String.toList_ofList] at hlist
    exact strip_ne_newline _ _ hlist

namespace History

variable {h : History}

theorem notice_notMem_bodyParts : truncationNotice ∉ h.bodyParts := by
  unfold bodyParts
  split
  · next body _ =>
    intro hmem
    rcases List.mem_cons.mp hmem with heq | hmem
    · refine ne_notice_of_leading ?_ heq.symm
      unfold bodyHeader
      rw [String.append_assoc, String.append_assoc, String.append_assoc, String.append_assoc,
        String.append_assoc, leading_append _ _ (by decide)]
      decide
    · rcases List.mem_cons.mp hmem with heq | hmem
      · refine ne_notice_of_leading ?_ heq.symm
        simp only [authorLine, String.append_assoc]
        rw [leading_append _ _ (by decide)]
        decide
      · exact strippedOr_ne_notice body.body (List.mem_singleton.mp hmem).symm
  · exact List.not_mem_nil

theorem entry_ne_notice {heading : String} (h : 2 ≤ heading.toList.length)
    (hleading : leading heading ≠ ['\n', '-']) (author createdAt context body : String) :
    entry heading author createdAt context body ≠ truncationNotice := by
  refine ne_notice_of_leading ?_
  simp only [entry, String.append_assoc]
  rwa [leading_append _ _ h]

/-- An entry under a heading with these first characters is not the notice. -/
theorem entry_numbered_ne_notice {label : String} (h : 2 ≤ label.toList.length)
    (hleading : leading label ≠ ['\n', '-']) (i : Nat) (author createdAt context body : String) :
    entry (label ++ toString i) author createdAt context body ≠ truncationNotice := by
  refine entry_ne_notice ?_ ?_ _ _ _ _
  · rw [String.toList_append, List.length_append]
    exact h.trans (Nat.le_add_right _ _)
  · rwa [leading_append _ _ h]

theorem notice_notMem_commentsParts : truncationNotice ∉ h.commentsParts := by
  unfold commentsParts
  split
  · exact List.not_mem_nil
  · intro hmem
    rcases List.mem_cons.mp hmem with heq | hmem
    · refine ne_notice_of_leading ?_ heq.symm
      simp only [String.append_assoc]
      rw [leading_append _ _ (by decide)]
      decide
    · obtain ⟨⟨c, i⟩, _, hmem⟩ := List.mem_flatMap.mp hmem
      rcases List.mem_cons.mp hmem with heq | hmem
      · exact entry_numbered_ne_notice (by decide) (by decide) _ _ _ _ _ heq.symm
      · obtain ⟨⟨r, j⟩, _, heq⟩ := List.mem_map.mp hmem
        exact entry_numbered_ne_notice (by decide) (by decide) _ _ _ _ _ heq

theorem notice_notMem_reviewParts : truncationNotice ∉ h.reviewParts := by
  unfold reviewParts
  split
  · intro hmem
    rcases List.mem_cons.mp hmem with heq | hmem
    · refine ne_notice_of_leading ?_ heq.symm
      simp only [String.append_assoc]
      rw [leading_append _ _ (by decide)]
      decide
    · obtain ⟨⟨c, i⟩, _, heq⟩ := List.mem_map.mp hmem
      exact entry_numbered_ne_notice (by decide) (by decide) _ _ _ _ _ heq
  · exact List.not_mem_nil

/-- The notice is in the text exactly when the history is marked as truncated. -/
theorem notice_mem_parts : truncationNotice ∈ h.parts ↔ h.truncated = true := by
  simp only [parts, List.mem_append, notice_notMem_bodyParts, notice_notMem_commentsParts,
    notice_notMem_reviewParts, or_false, false_or]
  split
  · next htruncated => exact iff_of_true (List.mem_singleton_self _) htruncated
  · next hwhole => exact iff_of_false List.not_mem_nil hwhole

end History

/-! ### The pages that are read -/

/-- The user of the comment is null. -/
def hasNullUser (c : RawComment) : Bool := (userLogin c.user).isNone

/-- The comments that become a dict before the first one that does not. -/
def parseUntil (parse : RawComment → Option Comment) : List RawComment → List Comment
  | [] => []
  | c :: rest =>
    match parse c with
    | some comment => comment :: parseUntil parse rest
    | none => []

/-- No page is asked for behind this one: it is not full, or the user of a comment is null. -/
def endsRest (raws : List RawComment) : Bool :=
  decide (raws.length < perPage) || raws.any hasNullUser

/-- The pages that are answered, up to the first that ends the reading, of the given number at
most. -/
def readPages (ends : List RawComment → Bool) (answers : Nat → Bool) :
    (left page : Nat) → List (List RawComment) → List (List RawComment)
  | 0, _, _ => []
  | _ + 1, _, [] => []
  | left + 1, page, raws :: rest =>
    if answers page then
      raws :: if ends raws then [] else readPages ends answers left (page + 1) rest
    else []

/-- A parser fails exactly on a null user and keeps the number of the comment. -/
structure Parses (parse : RawComment → Option Comment) : Prop where
  isNone : ∀ c, (parse c).isNone = hasNullUser c
  id : ∀ c comment, parse c = some comment → comment.id = c.id

theorem parses_issueComment : Parses issueComment where
  isNone := fun _ ↦ Option.isNone_map
  id := by
    intro c comment h
    obtain ⟨author, _, rfl⟩ := Option.map_eq_some_iff.mp h
    rfl

theorem parses_reviewComment : Parses reviewComment where
  isNone := fun c ↦ Option.isNone_map.trans (parses_issueComment.isNone c)
  id := by
    intro c comment h
    obtain ⟨issue, hissue, rfl⟩ := Option.map_eq_some_iff.mp h
    have hid := parses_issueComment.id c issue hissue
    split
    · split <;> exact hid
    · exact hid

section Rest

variable {parse : RawComment → Option Comment}

theorem appendComments_eq (h : Parses parse) (comments : List Comment) (raws : List RawComment) :
    appendComments parse comments raws =
      (comments ++ parseUntil parse raws, !raws.any hasNullUser) := by
  induction raws generalizing comments with
  | nil => rw [appendComments, parseUntil, List.append_nil]; rfl
  | cons c rest ih =>
    rw [appendComments, parseUntil, List.any_cons, ← h.isNone c]
    cases parse c with
    | none => rw [List.append_nil]; rfl
    | some comment =>
      refine (ih _).trans ?_
      rw [List.append_assoc]
      rfl

theorem parseUntil_append {raws : List RawComment} (h : Parses parse)
    (hall : raws.any hasNullUser = false) (rest : List RawComment) :
    parseUntil parse (raws ++ rest) = parseUntil parse raws ++ parseUntil parse rest := by
  induction raws with
  | nil => rfl
  | cons c raws ih =>
    rw [List.any_cons, Bool.or_eq_false_iff, ← h.isNone c] at hall
    rw [List.cons_append, parseUntil, parseUntil]
    cases hparse : parse c with
    | none => rw [hparse] at hall; exact (Bool.false_ne_true hall.1.symm).elim
    | some comment => rw [ih hall.2, List.cons_append]

theorem length_parseUntil {raws : List RawComment} (h : Parses parse)
    (hall : raws.any hasNullUser = false) : (parseUntil parse raws).length = raws.length := by
  induction raws with
  | nil => rfl
  | cons c raws ih =>
    rw [List.any_cons, Bool.or_eq_false_iff, ← h.isNone c] at hall
    rw [parseUntil]
    cases hparse : parse c with
    | none => rw [hparse] at hall; exact (Bool.false_ne_true hall.1.symm).elim
    | some comment => rw [List.length_cons, List.length_cons, ih hall.2]

/-- The comments that become a dict are the first ones. -/
theorem map_id_parseUntil (h : Parses parse) (raws : List RawComment) :
    (parseUntil parse raws).map Comment.id =
      (raws.takeWhile fun c ↦ !hasNullUser c).map RawComment.id := by
  induction raws with
  | nil => rfl
  | cons c raws ih =>
    rw [parseUntil, List.takeWhile_cons, ← h.isNone c]
    cases hparse : parse c with
    | none => rfl
    | some comment =>
      rw [List.map_cons, ih, h.id c comment hparse]
      rfl

/-- With room for all pages that are left, the comments are only full with the last one. -/
theorem lastPage_of_full {before more left : Nat}
    (hroom : before + (perPage * left + perPage) ≤ maxTotalComments) (hsmall : more ≤ perPage)
    (hfull : maxTotalComments ≤ before + more) :
    left = 0 ∧ perPage ≤ more ∧ before + more ≤ maxTotalComments := by
  unfold perPage at *
  omega

/-- A page is read whole, or up to a null user, and never makes the comments too many. -/
theorem restLoop_page (h : Parses parse) {api : Nat → Response} {page : Nat}
    {raws : List RawComment} {next : Bool} (hpage : api page = .page raws next)
    (hsmall : raws.length ≤ perPage) (left : Nat) (comments : List Comment)
    (hroom : comments.length + perPage * (left + 1) ≤ maxTotalComments) :
    restLoop parse api (left + 1) page comments =
      if endsRest raws then comments ++ parseUntil parse raws
      else restLoop parse api left (page + 1) (comments ++ parseUntil parse raws) := by
  rw [restLoop, hpage]
  cases raws with
  | nil => exact (List.append_nil comments).symm
  | cons c raws =>
    dsimp only
    rw [appendComments_eq h]
    cases hnull : (c :: raws).any hasNullUser with
    | true =>
      rw [endsRest, hnull, Bool.or_true, if_pos rfl]
      rfl
    | false =>
      have hlen : (comments ++ parseUntil parse (c :: raws)).length =
          comments.length + (c :: raws).length := by
        rw [List.length_append, length_parseUntil h hnull]
      rw [Nat.mul_succ] at hroom
      rw [endsRest, hnull, Bool.or_false, Bool.not_false]
      dsimp only
      by_cases hfull : maxTotalComments ≤ (comments ++ parseUntil parse (c :: raws)).length
      · -- the last of five full pages
        rw [hlen] at hfull
        obtain ⟨hleft, hpageFull, hwhole⟩ := lastPage_of_full hroom hsmall hfull
        rw [hleft, decide_eq_false (Nat.not_lt.mpr hpageFull), if_neg Bool.false_ne_true, restLoop,
          if_pos (hlen ▸ hfull), List.take_of_length_le (hlen.trans_le hwhole)]
      · rw [if_neg hfull]
        by_cases hshort : (c :: raws).length < perPage
        · rw [if_pos hshort, decide_eq_true hshort, if_pos rfl]
        · rw [if_neg hshort, decide_eq_false hshort, if_neg Bool.false_ne_true]

end Rest

section Pages

variable {limit : Nat} (l : Listing limit) {page : Nat}

/-- Behind the last page there are no comments. -/
theorem response_of_drop_nil (hpages : l.pages.drop page = []) :
    l.response page = if l.answers page then .page [] false else .failed := by
  have hle := List.drop_eq_nil_iff.mp hpages
  have hlast : ¬ page + 1 < l.pages.length := by omega
  rw [Listing.response, List.getD_eq_getElem?_getD, List.getElem?_eq_none hle,
    decide_eq_false hlast]
  rfl

/-- The next page is the first of those that are left. -/
theorem response_of_drop_cons {raws : List RawComment} {rest : List (List RawComment)}
    (hpages : l.pages.drop page = raws :: rest) :
    l.response page = (if l.answers page then .page raws (decide (rest ≠ [])) else .failed) ∧
      raws.length ≤ limit ∧ l.pages.drop (page + 1) = rest := by
  have hget : l.pages[page]? = some raws := by rw [← List.head?_drop, hpages, List.head?_cons]
  have hrest : l.pages.drop (page + 1) = rest := by rw [← List.tail_drop, hpages, List.tail_cons]
  refine ⟨?_, l.small raws (List.mem_of_getElem? hget), hrest⟩
  have hnext : page + 1 < l.pages.length ↔ rest ≠ [] := by
    rw [← hrest, ne_eq, List.drop_eq_nil_iff, Nat.not_le]
  rw [Listing.response, List.getD_eq_getElem?_getD, hget, decide_eq_decide.mpr hnext]
  rfl

/-- The REST loop reads these pages. -/
theorem restLoop_eq {parse : RawComment → Option Comment} (h : Parses parse)
    (hlimit : limit ≤ perPage) (left page : Nat) (comments : List Comment)
    (hroom : comments.length + perPage * left ≤ maxTotalComments) :
    restLoop parse l.response left page comments = comments ++
      parseUntil parse (readPages endsRest l.answers left page (l.pages.drop page)).flatten := by
  induction left generalizing page comments with
  | zero => rw [restLoop, readPages, List.flatten_nil, parseUntil, List.append_nil]
  | succ left ih =>
    cases hpages : l.pages.drop page with
    | nil =>
      rw [restLoop, response_of_drop_nil l hpages, readPages, List.flatten_nil, parseUntil,
        List.append_nil]
      cases l.answers page <;> rfl
    | cons raws rest =>
      obtain ⟨hresponse, hsmall, hrest⟩ := response_of_drop_cons l hpages
      rw [readPages]
      cases hanswers : l.answers page with
      | false =>
        rw [hanswers] at hresponse
        rw [restLoop, hresponse, if_neg Bool.false_ne_true, if_neg Bool.false_ne_true,
          List.flatten_nil, parseUntil, List.append_nil]
      | true =>
        rw [hanswers, if_pos rfl] at hresponse
        rw [restLoop_page h hresponse (hsmall.trans hlimit) left comments hroom, if_pos rfl,
          List.flatten_cons]
        cases hends : endsRest raws with
        | true => rw [if_pos rfl, if_pos rfl, List.flatten_nil, List.append_nil]
        | false =>
          obtain ⟨hlong, hnull⟩ := Bool.or_eq_false_iff.mp hends
          rw [if_neg Bool.false_ne_true, if_neg Bool.false_ne_true, ih, hrest,
            parseUntil_append h hnull, List.append_assoc]
          rw [List.length_append, length_parseUntil h hnull]
          rw [Nat.mul_succ] at hroom
          have := hsmall.trans hlimit
          omega

/-- The GraphQL loop reads these pages. -/
theorem graphqlLoop_eq (hlimit : limit ≤ perPage) (left page : Nat) (comments : List Comment)
    (hroom : comments.length + perPage * left ≤ maxTotalComments) :
    graphqlLoop l.response left page comments = comments ++
      ((readPages (fun _ ↦ false) l.answers left page (l.pages.drop page)).flatten).map
        discussionComment := by
  induction left generalizing page comments with
  | zero => rw [graphqlLoop, readPages, List.flatten_nil, List.map_nil, List.append_nil]
  | succ left ih =>
    cases hpages : l.pages.drop page with
    | nil =>
      rw [graphqlLoop, response_of_drop_nil l hpages, readPages, List.flatten_nil, List.map_nil,
        List.append_nil]
      cases l.answers page
      · rfl
      · exact List.append_nil comments
    | cons raws rest =>
      obtain ⟨hresponse, hsmall, hrest⟩ := response_of_drop_cons l hpages
      rw [readPages, graphqlLoop, hresponse]
      cases l.answers page with
      | false =>
        rw [if_neg Bool.false_ne_true, if_neg Bool.false_ne_true, List.flatten_nil, List.map_nil,
          List.append_nil]
      | true =>
        rw [if_pos rfl, if_pos rfl, if_neg Bool.false_ne_true, List.flatten_cons, List.map_append]
        rw [Nat.mul_succ] at hroom
        have hlen : (comments ++ raws.map discussionComment).length =
            comments.length + raws.length := by
          rw [List.length_append, List.length_map]
        have hsmall := hsmall.trans hlimit
        cases rest with
        | nil =>
          cases left <;> (rw [readPages, List.flatten_nil, List.map_nil, List.append_nil]; rfl)
        | cons more rest =>
          have hnext : ¬ decide (more :: rest ≠ []) = false := by
            rw [decide_eq_true (List.cons_ne_nil more rest)]
            exact Bool.true_eq_false.mp
          dsimp only
          rw [if_neg hnext, hlen, ← List.append_assoc]
          by_cases hfull : maxTotalComments ≤ comments.length + raws.length
          · obtain ⟨hleft, -, hwhole⟩ := lastPage_of_full hroom hsmall hfull
            rw [if_pos hfull, List.take_of_length_le (hlen.trans_le hwhole), hleft, readPages,
              List.flatten_nil, List.map_nil, List.append_nil]
          · rw [if_neg hfull, ih _ _ (by omega), hrest]

end Pages

/-! ### The newest comments -/

section Thread

variable {maxComments : Nat} (t : Thread maxComments)

/-- The comments on the pages that are read. -/
def Thread.commentsRead : List RawComment :=
  (readPages (if t.type = .discussion then fun _ ↦ false else endsRest) t.comments.answers
    maxCommentPages 0 t.comments.pages).flatten

/-- The review comments on the pages that are read. -/
def Thread.reviewsRead : List RawComment :=
  (readPages endsRest t.reviewComments.answers maxCommentPages 0 t.reviewComments.pages).flatten

end Thread

section Claim

variable (config : Config) (t : Thread config.maxComments)

/-- A comment of the thread, or a review comment that is asked for, is not in the history. -/
def LeftOut : Prop :=
  (∃ c ∈ t.comments.pages.flatten, c.id ∉ (gather config t).comments.map Comment.id) ∨
    ∃ kept, (gather config t).reviewComments = some kept ∧
      ∃ c ∈ t.reviewComments.pages.flatten, c.id ∉ kept.map Comment.id

/-- The history has the last `max_comments` of the comments on the pages that are read, and of the
review comments, and the text has the notice exactly when one is left out. -/
structure KeepsNewest : Prop where
  comments : (gather config t).comments.map Comment.id =
    (t.commentsRead.map RawComment.id).rtake config.maxComments
  reviews : ∀ kept, (gather config t).reviewComments = some kept →
    kept.map Comment.id = (t.reviewsRead.map RawComment.id).rtake config.maxComments
  notice : truncationNotice ∈ (gather config t).parts ↔ LeftOut config t

/-- The pages that are read have no more than `max_comments` comments, and as many review comments;
the REST API names the user of each; and there are as many as `max_comments` of the comments exactly
when the thread has more of them, or more review comments, than these pages. -/
structure HasRoom : Prop where
  comments : t.commentsRead.length ≤ config.maxComments ∧
    (t.type ≠ .discussion → ∀ c ∈ t.commentsRead, hasNullUser c = false)
  reviews : wantsReviews config t = true → t.reviewsRead.length ≤ config.maxComments ∧
    ∀ c ∈ t.reviewsRead, hasNullUser c = false
  rest : t.commentsRead.length = config.maxComments ↔
    t.commentsRead.length < t.comments.pages.flatten.length ∨
      wantsReviews config t = true ∧
        t.reviewsRead.length < t.reviewComments.pages.flatten.length

end Claim

theorem readPages_prefix_flatten (ends : List RawComment → Bool) (answers : Nat → Bool)
    (left page : Nat) (pages : List (List RawComment)) :
    (readPages ends answers left page pages).flatten <+: pages.flatten := by
  induction left generalizing page pages with
  | zero => exact List.nil_prefix
  | succ left ih =>
    cases pages with
    | nil => exact List.nil_prefix
    | cons raws rest =>
      rw [readPages]
      split
      · rw [List.flatten_cons, List.flatten_cons, List.prefix_append_right_inj]
        split
        · exact List.nil_prefix
        · exact ih _ _
      · exact List.nil_prefix

/-- The comments that are cut off at the end are the newest ones only when none is cut off. -/
theorem take_eq_newest_iff {read : List RawComment} (hread : (read.map RawComment.id).Nodup)
    (usable : RawComment → Bool) {max : Nat} (hmax : 0 < max) :
    ((read.takeWhile usable).map RawComment.id).take max = (read.map RawComment.id).rtake max ↔
      read.length ≤ max ∧ ∀ c ∈ read, usable c = true := by
  have hfirst : (read.takeWhile usable).map RawComment.id <+: read.map RawComment.id :=
    (List.takeWhile_prefix usable).map _
  rw [Base.take_eq_rtake_iff hread hfirst hmax, List.length_map, and_comm]
  refine and_congr_right fun _ ↦ ?_
  rw [← List.takeWhile_eq_self_iff]
  refine ⟨fun h ↦ ?_, fun h ↦ by rw [h]⟩
  have hlen := congrArg List.length h
  rw [List.length_map, List.length_map] at hlen
  exact (List.takeWhile_prefix usable).eq_of_length hlen

section Gathered

variable {config : Config} {t : Thread config.maxComments}

theorem gather_comments (config : Config) (t : Thread config.maxComments) :
    (gather config t).comments =
      if t.type == .discussion then fetchDiscussion t.comments.response config.maxComments
      else fetchComments t.comments.response config.maxComments := rfl

/-- The comments of a thread, by their numbers. -/
theorem map_id_comments :
    (gather config t).comments.map Comment.id =
      ((t.commentsRead.takeWhile fun c ↦ t.type == .discussion || !hasNullUser c).map
        RawComment.id).take config.maxComments := by
  have hroom : ([] : List Comment).length + perPage * maxCommentPages ≤ maxTotalComments := le_rfl
  have hlimit : (if t.type = .discussion then min config.maxComments perPage else perPage) ≤
      perPage := by
    split
    · exact min_le_right _ _
    · exact le_rfl
  rw [gather_comments, Thread.commentsRead]
  by_cases hdiscussion : t.type = .discussion
  · have hends : (if t.type = .discussion then fun _ ↦ false else endsRest) = fun _ ↦ false :=
      if_pos hdiscussion
    have hbeq : (t.type == .discussion) = true := beq_iff_eq.mpr hdiscussion
    rw [if_pos hbeq, hends, hbeq, fetchDiscussion, graphqlLoop_eq t.comments hlimit _ _ _ hroom,
      List.drop_zero, List.nil_append, List.map_take, List.map_map,
      List.takeWhile_eq_self_iff (p := fun c ↦ true || !hasNullUser c) |>.mpr fun _ _ ↦ rfl]
    rfl
  · have hends : (if t.type = .discussion then fun _ ↦ false else endsRest) = endsRest :=
      if_neg hdiscussion
    have hbeq : (t.type == .discussion) = false := beq_false_of_ne hdiscussion
    rw [if_neg (hbeq ▸ Bool.false_ne_true), hends, hbeq, fetchComments,
      restLoop_eq t.comments parses_issueComment hlimit _ _ _ hroom, List.drop_zero,
      List.nil_append, List.map_take, map_id_parseUntil parses_issueComment]
    rfl

/-- The review comments, by their numbers. -/
theorem map_id_reviewComments (h : wantsReviews config t = true) :
    ∃ kept, (gather config t).reviewComments = some kept ∧ kept.map Comment.id =
      ((t.reviewsRead.takeWhile fun c ↦ !hasNullUser c).map RawComment.id).take
        config.maxComments := by
  have hroom : ([] : List Comment).length + perPage * maxCommentPages ≤ maxTotalComments := le_rfl
  refine ⟨fetchPrReviewComments t.reviewComments.response config.maxComments, if_pos h, ?_⟩
  rw [fetchPrReviewComments, restLoop_eq t.reviewComments parses_reviewComment le_rfl _ _ _ hroom,
    List.drop_zero, List.nil_append, List.map_take, map_id_parseUntil parses_reviewComment]
  rfl

theorem isPrefix_commentsRead (t : Thread config.maxComments) :
    t.commentsRead <+: t.comments.pages.flatten :=
  readPages_prefix_flatten _ _ _ _ _

theorem isPrefix_reviewsRead (t : Thread config.maxComments) :
    t.reviewsRead <+: t.reviewComments.pages.flatten :=
  readPages_prefix_flatten _ _ _ _ _

theorem nodup_commentsRead (t : Thread config.maxComments) :
    (t.commentsRead.map RawComment.id).Nodup :=
  t.comments.distinct.sublist ((isPrefix_commentsRead t).map _).sublist

theorem nodup_reviewsRead (t : Thread config.maxComments) :
    (t.reviewsRead.map RawComment.id).Nodup :=
  t.reviewComments.distinct.sublist ((isPrefix_reviewsRead t).map _).sublist

theorem usable_iff {c : RawComment} : (!hasNullUser c) = true ↔ hasNullUser c = false := by
  rw [Bool.not_eq_true']

theorem wantsReviews_of_some {kept : List Comment}
    (h : (gather config t).reviewComments = some kept) : wantsReviews config t = true := by
  by_contra hnot
  have hnone : (gather config t).reviewComments = none := if_neg hnot
  exact Option.some_ne_none kept (h.symm.trans hnone)

/-- The newest comments are kept when they are all there are. -/
theorem comments_newest_iff (hmax : 0 < config.maxComments) :
    (gather config t).comments.map Comment.id =
        (t.commentsRead.map RawComment.id).rtake config.maxComments ↔
      t.commentsRead.length ≤ config.maxComments ∧
        (t.type ≠ .discussion → ∀ c ∈ t.commentsRead, hasNullUser c = false) := by
  rw [map_id_comments, take_eq_newest_iff (nodup_commentsRead t) _ hmax]
  refine and_congr_right fun _ ↦ ⟨fun h hother c hc ↦ ?_, fun h c hc ↦ ?_⟩
  · have husable := h c hc
    rw [beq_false_of_ne hother, Bool.false_or] at husable
    exact usable_iff.mp husable
  · by_cases hdiscussion : t.type = .discussion
    · rw [beq_iff_eq.mpr hdiscussion, Bool.true_or]
    · rw [h hdiscussion c hc, Bool.not_false, Bool.or_true]

theorem reviews_newest_iff (hmax : 0 < config.maxComments) :
    (∀ kept, (gather config t).reviewComments = some kept →
      kept.map Comment.id = (t.reviewsRead.map RawComment.id).rtake config.maxComments) ↔
      (wantsReviews config t = true → t.reviewsRead.length ≤ config.maxComments ∧
        ∀ c ∈ t.reviewsRead, hasNullUser c = false) := by
  have hiff := take_eq_newest_iff (nodup_reviewsRead t) (fun c ↦ !hasNullUser c) hmax
  constructor
  · intro h hwants
    obtain ⟨kept, hkept, hids⟩ := map_id_reviewComments hwants
    obtain ⟨hlen, hall⟩ := hiff.mp (hids ▸ h kept hkept)
    exact ⟨hlen, fun c hc ↦ usable_iff.mp (hall c hc)⟩
  · intro h kept hkept
    have hwants := wantsReviews_of_some hkept
    obtain ⟨kept', hkept', hids⟩ := map_id_reviewComments hwants
    obtain rfl := Option.some.inj (hkept.symm.trans hkept')
    rw [hids]
    exact hiff.mpr ⟨(h hwants).1, fun c hc ↦ usable_iff.mpr ((h hwants).2 c hc)⟩

/-- Of comments that are read and kept, one is left out when there are more. -/
theorem exists_leftOut_iff {limit : Nat} (l : Listing limit) {read : List RawComment}
    (hread : read <+: l.pages.flatten) :
    (∃ c ∈ l.pages.flatten, c.id ∉ read.map RawComment.id) ↔
      read.length < l.pages.flatten.length := by
  have hiff := Base.exists_notMem_prefix_iff l.distinct (hread.map RawComment.id)
  rw [List.length_map, List.length_map] at hiff
  rw [← hiff]
  constructor
  · rintro ⟨c, hc, hnot⟩
    exact ⟨c.id, List.mem_map_of_mem hc, hnot⟩
  · rintro ⟨id, hid, hnot⟩
    obtain ⟨c, hc, rfl⟩ := List.mem_map.mp hid
    exact ⟨c, hc, hnot⟩

theorem rtake_of_length_le {ids : List Nat} {max : Nat} (h : ids.length ≤ max) :
    ids.rtake max = ids := by
  rw [List.rtake, Nat.sub_eq_zero_of_le h, List.drop_zero]

/-- With room for all of them, what is left out was not read. -/
theorem leftOut_iff (hmax : 0 < config.maxComments)
    (hcomments : t.commentsRead.length ≤ config.maxComments ∧
      (t.type ≠ .discussion → ∀ c ∈ t.commentsRead, hasNullUser c = false))
    (hreviews : wantsReviews config t = true → t.reviewsRead.length ≤ config.maxComments ∧
      ∀ c ∈ t.reviewsRead, hasNullUser c = false) :
    LeftOut config t ↔ t.commentsRead.length < t.comments.pages.flatten.length ∨
      wantsReviews config t = true ∧
        t.reviewsRead.length < t.reviewComments.pages.flatten.length := by
  have hlen : (t.commentsRead.map RawComment.id).length ≤ config.maxComments := by
    rw [List.length_map]
    exact hcomments.1
  rw [LeftOut, (comments_newest_iff hmax).mpr hcomments, rtake_of_length_le hlen,
    exists_leftOut_iff t.comments (isPrefix_commentsRead t)]
  refine or_congr_right ?_
  rw [← exists_leftOut_iff t.reviewComments (isPrefix_reviewsRead t)]
  have hkept : ∀ kept, (gather config t).reviewComments = some kept →
      kept.map Comment.id = t.reviewsRead.map RawComment.id := by
    intro kept hkept
    rw [(reviews_newest_iff hmax).mpr hreviews kept hkept]
    refine rtake_of_length_le ?_
    rw [List.length_map]
    exact (hreviews (wantsReviews_of_some hkept)).1
  constructor
  · rintro ⟨kept, hsome, c, hc, hnot⟩
    exact ⟨wantsReviews_of_some hsome, c, hc, hkept kept hsome ▸ hnot⟩
  · rintro ⟨hwants, c, hc, hnot⟩
    obtain ⟨kept, hsome, _⟩ := map_id_reviewComments hwants
    exact ⟨kept, hsome, c, hc, (hkept kept hsome).symm ▸ hnot⟩

/-- With room for all of them, the history is marked when there are as many as it may have. -/
theorem truncated_iff (hmax : 0 < config.maxComments)
    (hcomments : t.commentsRead.length ≤ config.maxComments ∧
      (t.type ≠ .discussion → ∀ c ∈ t.commentsRead, hasNullUser c = false)) :
    (gather config t).truncated = true ↔ t.commentsRead.length = config.maxComments := by
  have hlen : (gather config t).comments.length = t.commentsRead.length := by
    have hlength := congrArg List.length ((comments_newest_iff hmax).mpr hcomments)
    rwa [rtake_of_length_le (by rw [List.length_map]; exact hcomments.1), List.length_map,
      List.length_map] at hlength
  change decide (config.maxComments ≤ (gather config t).comments.length) = true ↔ _
  rw [decide_eq_true_iff, hlen]
  exact ⟨hcomments.1.antisymm, Eq.ge⟩

end Gathered

/-- The history keeps the newest comments and says truly what is left out exactly when it has room
for all comments on the pages that are read. -/
theorem keepsNewest_iff (config : Config) (t : Thread config.maxComments)
    (hmax : 0 < config.maxComments) : KeepsNewest config t ↔ HasRoom config t := by
  constructor
  · intro h
    have hcomments := (comments_newest_iff hmax).mp h.comments
    have hreviews := (reviews_newest_iff hmax).mp h.reviews
    refine ⟨hcomments, hreviews, ?_⟩
    rw [← truncated_iff hmax hcomments, ← leftOut_iff hmax hcomments hreviews,
      ← History.notice_mem_parts]
    exact h.notice
  · intro h
    refine ⟨(comments_newest_iff hmax).mpr h.comments, (reviews_newest_iff hmax).mpr h.reviews, ?_⟩
    rw [History.notice_mem_parts, truncated_iff hmax h.comments,
      leftOut_iff hmax h.comments h.reviews]
    exact h.rest

/-- An issue with two comments. -/
def twoComments (config : Config) : Thread config.maxComments where
  type := .issue
  body := none
  comments := {
    pages := [[{ id := 1, user := .user (some "alice") }, { id := 2, user := .user (some "bob") }]]
    answers := fun _ ↦ true
    small := List.forall_mem_singleton.mpr (Nat.le_of_ble_eq_true rfl)
    distinct := by decide }
  reviewComments := {
    pages := []
    answers := fun _ ↦ true
    small := List.forall_mem_nil _
    distinct := List.nodup_nil }

/-- With room for three comments, the history of two is whole. -/
theorem keepsNewest_twoComments :
    KeepsNewest { maxComments := 3 } (twoComments { maxComments := 3 }) :=
  (keepsNewest_iff { maxComments := 3 } (twoComments { maxComments := 3 }) (by decide)).mpr
    { comments := ⟨by decide, fun _ ↦ by decide⟩
      reviews := fun h ↦ absurd h (by decide)
      rest := by decide }

/-- With room for one comment, the older one is kept. -/
theorem not_keepsNewest_twoComments :
    ¬ KeepsNewest { maxComments := 1 } (twoComments { maxComments := 1 }) := by
  intro h
  exact absurd h.comments (by decide)

end GithubAgent.Shared.ThreadHistory
