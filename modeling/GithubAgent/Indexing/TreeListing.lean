import GithubAgent.Indexing.FileTree

/-!
# The lines of a file tree under its limit

`_walk` of `src/shared/file_tree.py` counts the entries through a recursion. It lists the first of the
entries that are within its levels, and says that others are left out unless all of these are inside
the last one it has listed.
-/

namespace GithubAgent.Indexing.FileTree

/-! ### The entries without a limit -/

/-- An entry of the tree, and whether it is a directory. -/
abbrev Item := Place × Bool

/-- The directories above an entry. -/
def depth (item : Item) : Nat := item.1.dirs.length

section Within

variable (lower : String → String) (spec : IgnoreSpec)

/-- The entries of a node that is entered at a name. -/
def childItems (within : List (String × Bool) → List (String × Node) → List Item)
    (dirs : List (String × Bool)) : String × Node → List Item
  | (_, .file) => []
  | (name, .dir linked entries) => within (dirs ++ [(name, linked)]) entries

/-- The entries of the tree within this many levels, in their order. -/
def within : (left : Nat) → List (String × Bool) → List (String × Node) → List Item
  | 0, _, _ => []
  | left + 1, dirs, entries =>
    (visible lower spec dirs entries).flatMap fun e ↦
      (⟨dirs, e.1⟩, e.2.isDir) :: childItems (within left) dirs e

end Within

/-- The entry of a line. -/
def TreeLine.item? : TreeLine → Option Item
  | .entry _ place isDir => some (place, isDir)
  | _ => none

def TreeLine.isTruncated : TreeLine → Bool
  | .truncated _ _ => true
  | _ => false

/-- The entries that the lines list. -/
def itemsOf (lines : List TreeLine) : List Item := lines.filterMap TreeLine.item?

/-- There is a line that says how many entries are left out. -/
def saysTruncated (lines : List TreeLine) : Bool := lines.any TreeLine.isTruncated

/-- Behind the first `room` numbers there is one that is not greater than the last of them. -/
def Leaves (room : Nat) (depths : List Nat) : Prop :=
  ∃ e, (depths.take room).getLast? = some e ∧ ∃ d ∈ depths.drop room, d ≤ e

theorem not_leaves_zero (depths : List Nat) : ¬ Leaves 0 depths := by
  rintro ⟨e, he, _⟩
  rw [List.take_zero] at he
  cases he

theorem not_leaves_of_length_le {room : Nat} {depths : List Nat} (h : depths.length ≤ room) :
    ¬ Leaves room depths := by
  rintro ⟨e, _, d, hd, _⟩
  rw [List.drop_eq_nil_of_le h] at hd
  cases hd

/-- The first number decides nothing when the others are greater. -/
theorem leaves_cons_iff {room a : Nat} {depths : List Nat} (h : ∀ d ∈ depths, a < d)
    (hroom : room ≤ depths.length) : Leaves (room + 1) (a :: depths) ↔ Leaves room depths := by
  cases room with
  | zero =>
    refine iff_of_false ?_ (not_leaves_zero depths)
    rintro ⟨e, he, d, hd, hle⟩
    obtain rfl := Option.some.inj he
    exact (h d hd).not_ge hle
  | succ room =>
    have hlast : ((a :: depths).take (room + 1 + 1)).getLast? =
        (depths.take (room + 1)).getLast? := by
      rw [List.take_succ_cons, List.getLast?_cons]
      cases hdepths : (depths.take (room + 1)).getLast? with
      | some e => rfl
      | none =>
        rw [List.getLast?_eq_none_iff, List.take_eq_nil_iff] at hdepths
        rcases hdepths with hzero | hnil
        · cases hzero
        · rw [hnil] at hroom
          exact (Nat.not_succ_le_zero _ hroom).elim
    unfold Leaves
    rw [hlast, List.drop_succ_cons]

/-- Where the limit is within the first numbers, any other ones are not greater. -/
theorem leaves_append_of_le {room : Nat} {a b : List Nat} (hpos : 0 < room)
    (hroom : room ≤ a.length) (hb : ∀ d, b.head? = some d → ∀ e ∈ a, d ≤ e) :
    Leaves room (a ++ b) ↔ Leaves room a ∨ b ≠ [] := by
  unfold Leaves
  rw [List.take_append_of_le_length hroom, List.drop_append_of_le_length hroom]
  constructor
  · rintro ⟨e, he, d, hd, hle⟩
    rcases List.mem_append.mp hd with hd | hd
    · exact Or.inl ⟨e, he, d, hd, hle⟩
    · exact Or.inr (List.ne_nil_of_mem hd)
  · rintro (⟨e, he, d, hd, hle⟩ | hne)
    · exact ⟨e, he, d, List.mem_append_left b hd, hle⟩
    · have hsome : (a.take room).getLast? ≠ none := by
        rw [ne_eq, List.getLast?_eq_none_iff, List.take_eq_nil_iff]
        rintro (hzero | hnil)
        · exact hpos.ne' hzero
        · rw [hnil] at hroom
          exact hpos.not_ge hroom
      obtain ⟨e, he⟩ := Option.ne_none_iff_exists'.mp hsome
      obtain ⟨d, rest, rfl⟩ := List.exists_cons_of_ne_nil hne
      have hmem : e ∈ a := List.mem_of_mem_take (List.mem_of_getLast? he)
      exact ⟨e, he, d, List.mem_append_right _ List.mem_cons_self, hb d rfl e hmem⟩

/-- Where it is behind them, they decide nothing. -/
theorem leaves_append_of_gt {room : Nat} {a b : List Nat} (hroom : a.length < room) :
    Leaves room (a ++ b) ↔ Leaves (room - a.length) b := by
  unfold Leaves
  rw [List.take_append, List.take_of_length_le hroom.le, List.drop_append,
    List.drop_eq_nil_of_le hroom.le, List.nil_append, List.getLast?_append]
  cases b with
  | nil => simp
  | cons d rest =>
    have hsome : ((d :: rest).take (room - a.length)).getLast? ≠ none := by
      rw [ne_eq, List.getLast?_eq_none_iff, List.take_eq_nil_iff]
      rintro (hzero | hnil)
      · exact (Nat.sub_pos_of_lt hroom).ne' hzero
      · cases hnil
    obtain ⟨e, he⟩ := Option.ne_none_iff_exists'.mp hsome
    rw [he]
    rfl

/-! ### What is listed under a limit -/

/-- The listing goes on with the first of the items, as many as there is room for, and has a line
about others that are left out exactly if it had one or this is so. -/
structure Lists (maxEntries : Nat) (w w' : Listing) (items : List Item) (cut : Prop) : Prop where
  listed : itemsOf w'.lines = itemsOf w.lines ++ items.take (maxEntries - w.entryCount)
  count : w'.entryCount = w.entryCount + (items.take (maxEntries - w.entryCount)).length
  truncated : saysTruncated w'.lines = true ↔ saysTruncated w.lines = true ∨ cut

/-- The items leave others out when the listing is cut among them. -/
def LeavesItems (room : Nat) (items : List Item) : Prop := Leaves room (items.map depth)

section Limit

variable {maxEntries : Nat}

theorem itemsOf_concat (lines : List TreeLine) (line : TreeLine) :
    itemsOf (lines ++ [line]) = itemsOf lines ++ line.item?.toList := by
  rw [itemsOf, List.filterMap_append]
  cases h : line.item? <;> simp [itemsOf, List.filterMap, h]

theorem saysTruncated_concat (lines : List TreeLine) (line : TreeLine) :
    saysTruncated (lines ++ [line]) = (saysTruncated lines || line.isTruncated) := by
  rw [saysTruncated, List.any_append, List.any_cons, List.any_nil, Bool.or_false, saysTruncated]

/-- Nothing is listed where there are no items. -/
theorem lists_nil (w : Listing) {cut : Prop} (h : ¬ cut) : Lists maxEntries w w [] cut where
  listed := by rw [List.take_nil, List.append_nil]
  count := by rw [List.take_nil, List.length_nil, Nat.add_zero]
  truncated := (or_iff_left h).symm

/-- Nothing more is listed where there is no room. -/
theorem lists_full {w : Listing} (hfull : maxEntries ≤ w.entryCount) (items : List Item)
    {cut : Prop} (h : ¬ cut) : Lists maxEntries w w items cut where
  listed := by rw [Nat.sub_eq_zero_of_le hfull, List.take_zero, List.append_nil]
  count := by rw [Nat.sub_eq_zero_of_le hfull, List.take_zero, List.length_nil, Nat.add_zero]
  truncated := (or_iff_left h).symm

/-- Where there is no room, the line about others that are left out can still be added. -/
theorem lists_truncated {w : Listing} (hfull : maxEntries ≤ w.entryCount) (lead : String)
    (more : Nat) (items : List Item) {cut : Prop} (h : cut) :
    Lists maxEntries w { w with lines := w.lines ++ [.truncated lead more] } items cut where
  listed := by
    rw [itemsOf_concat, Nat.sub_eq_zero_of_le hfull, List.take_zero]
    rfl
  count := by
    rw [Nat.sub_eq_zero_of_le hfull, List.take_zero]
    rfl
  truncated := by
    rw [saysTruncated_concat]
    exact iff_of_true (Bool.or_true _) (Or.inr h)

/-- The entries of one name: its line, and what is listed when it is entered. -/
theorem lists_entry {w w' : Listing} {lead : String} {place : Place} {isDir : Bool}
    {children : List Item} (hroom : w.entryCount < maxEntries)
    (h : Lists maxEntries ⟨w.lines ++ [.entry lead place isDir], w.entryCount + 1⟩ w' children
      (LeavesItems (maxEntries - (w.entryCount + 1)) children)) :
    Lists maxEntries w w' ((place, isDir) :: children)
      (LeavesItems (maxEntries - (w.entryCount + 1)) children) := by
  have hsucc : maxEntries - w.entryCount = maxEntries - (w.entryCount + 1) + 1 := by omega
  exact
    { listed := by
        rw [h.listed, itemsOf_concat, hsucc, List.take_succ_cons, List.append_assoc]
        rfl
      count := by rw [h.count, hsucc, List.take_succ_cons, List.length_cons, Nat.add_assoc,
        Nat.add_comm 1]
      truncated := by
        rw [h.truncated, saysTruncated_concat]
        refine or_congr_left ?_
        change (saysTruncated w.lines || false) = true ↔ _
        rw [Bool.or_false] }

/-- The items of one name and those of the names behind it. -/
theorem lists_append {w w' w'' : Listing} {a b : List Item} {cut cut' : Prop}
    (h : Lists maxEntries w w' a cut) (h' : Lists maxEntries w' w'' b cut') :
    Lists maxEntries w w'' (a ++ b) (cut ∨ cut') := by
  have hleft : maxEntries - w'.entryCount = maxEntries - w.entryCount - a.length := by
    rw [h.count, List.length_take]
    omega
  exact
    { listed := by rw [h'.listed, h.listed, hleft, List.take_append, List.append_assoc]
      count := by rw [h'.count, hleft, h.count, List.take_append, List.length_append, Nat.add_assoc]
      truncated := by rw [h'.truncated, h.truncated, or_assoc] }

/-- The items of the names in a directory. -/
def itemsIn (inner : List (String × Bool) → List (String × Node) → List Item)
    (dirs : List (String × Bool)) (entries : List (String × Node)) : List Item :=
  entries.flatMap fun e ↦ (⟨dirs, e.1⟩, e.2.isDir) :: childItems inner dirs e

variable {inner : List (String × Bool) → List (String × Node) → List Item}
  {dirs : List (String × Bool)}

theorem childItems_deeper (hinner : ∀ dirs entries, ∀ item ∈ inner dirs entries,
    dirs.length ≤ depth item) (e : String × Node) :
    ∀ item ∈ childItems inner dirs e, dirs.length < depth item := by
  intro item hitem
  obtain ⟨name, node⟩ := e
  cases node with
  | file => cases hitem
  | dir linked entries =>
    have hle := hinner _ _ item hitem
    rwa [List.length_append, List.length_singleton] at hle

theorem itemsIn_deep (hinner : ∀ dirs entries, ∀ item ∈ inner dirs entries,
    dirs.length ≤ depth item) (entries : List (String × Node)) :
    ∀ item ∈ itemsIn inner dirs entries, dirs.length ≤ depth item := by
  intro item hitem
  obtain ⟨e, _, hitem⟩ := List.mem_flatMap.mp hitem
  rcases List.mem_cons.mp hitem with rfl | hitem
  · exact le_rfl
  · exact (childItems_deeper hinner e item hitem).le

/-- With the items of the names behind it, one name leaves items out if it does by itself or there
are others and no room for them, or if they do. -/
theorem leavesItems_entry_iff (hinner : ∀ dirs entries, ∀ item ∈ inner dirs entries,
    dirs.length ≤ depth item) (e : String × Node) (rest : List (String × Node)) {room : Nat} :
    LeavesItems (room + 1) (itemsIn inner dirs (e :: rest)) ↔
      LeavesItems room (childItems inner dirs e) ∨
        (room - (childItems inner dirs e).length = 0 ∧ rest ≠ []) ∨
          LeavesItems (room - (childItems inner dirs e).length) (itemsIn inner dirs rest) := by
  have hchildren : ∀ d ∈ (childItems inner dirs e).map depth, dirs.length < d := by
    intro d hd
    obtain ⟨item, hitem, rfl⟩ := List.mem_map.mp hd
    exact childItems_deeper hinner e item hitem
  have hsplit : (itemsIn inner dirs (e :: rest)).map depth =
      (dirs.length :: (childItems inner dirs e).map depth) ++
        (itemsIn inner dirs rest).map depth := by
    rw [itemsIn, List.flatMap_cons, List.map_append, List.map_cons]
    rfl
  have hlen : (dirs.length :: (childItems inner dirs e).map depth).length =
      (childItems inner dirs e).length + 1 := by rw [List.length_cons, List.length_map]
  have hrest : (itemsIn inner dirs rest).map depth ≠ [] ↔ rest ≠ [] := by
    cases rest with
    | nil => exact iff_of_false (fun h ↦ h rfl) (fun h ↦ h rfl)
    | cons e' rest =>
      refine iff_of_true ?_ (List.cons_ne_nil _ _)
      rw [itemsIn, List.flatMap_cons]
      exact List.cons_ne_nil _ _
  unfold LeavesItems
  rw [hsplit]
  rcases Nat.lt_or_ge (childItems inner dirs e).length room with hroom | hroom
  · -- there is room for all of its items
    rw [leaves_append_of_gt (by rw [hlen]; omega), hlen, Nat.add_sub_add_right]
    have hfits : ¬ Leaves room ((childItems inner dirs e).map depth) :=
      not_leaves_of_length_le (by rw [List.length_map]; exact hroom.le)
    have hleft : room - (childItems inner dirs e).length ≠ 0 := (Nat.sub_pos_of_lt hroom).ne'
    rw [or_iff_right hfits, or_iff_right fun h ↦ hleft h.1]
  · have hhead : ∀ d, ((itemsIn inner dirs rest).map depth).head? = some d →
        ∀ e' ∈ dirs.length :: (childItems inner dirs e).map depth, d ≤ e' := by
      intro d hd e' he'
      have hd : d = dirs.length := by
        cases rest with
        | nil => cases hd
        | cons e'' rest => exact (Option.some.inj hd).symm
      rw [hd]
      rcases List.mem_cons.mp he' with rfl | he'
      · exact le_rfl
      · exact (hchildren e' he').le
    rw [leaves_append_of_le (Nat.succ_pos room) (by rw [hlen]; omega) hhead,
      leaves_cons_iff hchildren (by rw [List.length_map]; exact hroom), hrest,
      Nat.sub_eq_zero_of_le hroom, or_iff_left (not_leaves_zero _), eq_self, true_and]

variable {enter : String → List (String × Bool) → List (String × Node) → Listing → Listing}

/-- A directory is entered, and lists the items in it. -/
theorem lists_children
    (henter : ∀ lead dirs entries w, Lists maxEntries w (enter lead dirs entries w)
      (inner dirs entries) (LeavesItems (maxEntries - w.entryCount) (inner dirs entries)))
    (lead : String) (dirs : List (String × Bool)) (name : String) (node : Node) (w : Listing) :
    Lists maxEntries w
      (match node with
        | .file => w
        | .dir linked entries => enter lead (dirs ++ [(name, linked)]) entries w)
      (childItems inner dirs (name, node))
      (LeavesItems (maxEntries - w.entryCount) (childItems inner dirs (name, node))) := by
  cases node with
  | file => exact lists_nil w (not_leaves_of_length_le (Nat.zero_le _))
  | dir linked entries => exact henter lead _ entries w

/-- The loop over the entries of a directory lists their items. -/
theorem lists_listEntries
    (henter : ∀ lead dirs entries w, Lists maxEntries w (enter lead dirs entries w)
      (inner dirs entries) (LeavesItems (maxEntries - w.entryCount) (inner dirs entries)))
    (hinner : ∀ dirs entries, ∀ item ∈ inner dirs entries, dirs.length ≤ depth item)
    (lead : String) (dirs : List (String × Bool)) (entries : List (String × Node)) (w : Listing) :
    Lists maxEntries w (listEntries maxEntries enter lead dirs entries w)
      (itemsIn inner dirs entries)
      ((maxEntries - w.entryCount = 0 ∧ entries ≠ []) ∨
        LeavesItems (maxEntries - w.entryCount) (itemsIn inner dirs entries)) := by
  induction entries generalizing w with
  | nil =>
    refine lists_nil w ?_
    rintro (⟨_, hne⟩ | hleaves)
    · exact hne rfl
    · exact not_leaves_of_length_le (Nat.zero_le _) hleaves
  | cons e rest ih =>
    obtain ⟨name, node⟩ := e
    rw [listEntries]
    split
    · next hfull =>
      exact lists_truncated hfull lead (rest.length + 1) _
        (Or.inl ⟨Nat.sub_eq_zero_of_le hfull, List.cons_ne_nil _ _⟩)
    · next hroom =>
      have hroom := Nat.lt_of_not_le hroom
      have hsucc : maxEntries - w.entryCount = maxEntries - (w.entryCount + 1) + 1 := by omega
      -- what the entry itself and its children add
      have hentry := lists_entry hroom (lists_children henter
        (lead ++ if rest.isEmpty then "    " else "│   ") dirs name node ⟨w.lines ++ [.entry
          (lead ++ if rest.isEmpty then "└── " else "├── ") ⟨dirs, name⟩ node.isDir],
          w.entryCount + 1⟩)
      have hleft := hentry.count
      have hall := lists_append hentry (ih _)
      rw [hleft, hsucc, List.take_succ_cons, List.length_cons, List.length_take] at hall
      have hroom' : maxEntries - (w.entryCount + (min (maxEntries - (w.entryCount + 1))
          (childItems inner dirs (name, node)).length + 1)) =
            maxEntries - (w.entryCount + 1) - (childItems inner dirs (name, node)).length := by
        omega
      rw [hroom'] at hall
      have hne : ¬ (maxEntries - w.entryCount = 0 ∧ (name, node) :: rest ≠ []) := fun h ↦
        (Nat.sub_pos_of_lt hroom).ne' h.1
      rw [or_iff_right hne, hsucc, leavesItems_entry_iff hinner]
      exact hall

end Limit

section Tree

variable (lower : String → String) (spec : IgnoreSpec)

theorem within_deep (left : Nat) (dirs : List (String × Bool)) (entries : List (String × Node)) :
    ∀ item ∈ within lower spec left dirs entries, dirs.length ≤ depth item := by
  induction left generalizing dirs entries with
  | zero => exact List.forall_mem_nil _
  | succ left ih =>
    intro item hitem
    exact itemsIn_deep ih _ item hitem

/-- The walk lists the entries within the levels that are left. -/
theorem lists_walk (maxEntries left : Nat) (lead : String) (dirs : List (String × Bool))
    (entries : List (String × Node)) (w : Listing) :
    Lists maxEntries w (walk lower spec maxEntries left lead dirs entries w)
      (within lower spec left dirs entries)
      (LeavesItems (maxEntries - w.entryCount) (within lower spec left dirs entries)) := by
  induction left generalizing lead dirs entries w with
  | zero => exact lists_nil w (not_leaves_of_length_le (Nat.zero_le _))
  | succ left ih =>
    rw [walk]
    split
    · next hfull =>
      exact lists_full hfull _ (Nat.sub_eq_zero_of_le hfull ▸ not_leaves_zero _)
    · next hroom =>
      have hlists := lists_listEntries ih (within_deep lower spec left) lead dirs
        (visible lower spec dirs entries) w
      rwa [or_iff_right fun h ↦ hroom (Nat.le_of_sub_eq_zero h.1)] at hlists

end Tree

end GithubAgent.Indexing.FileTree
