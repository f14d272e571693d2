import Mathlib.Data.List.Basic

/-!
# UTF-8 with replacement

`bytes.decode("utf-8", errors="replace")` as a machine that reads one byte at a time: bytes that
begin no character, and characters that end too early, become U+FFFD, one for each longest part
that could begin a character. The second half is about bytes that are decoded piece by piece.
-/

namespace GithubAgent.Base.Utf8

/-- The bytes of a text. -/
def encode (text : List Char) : List UInt8 := text.flatMap String.utf8EncodeChar

/-- U+FFFD. -/
def replacement : Char := Char.ofNat 0xFFFD

/-- A character that has begun: its bits so far, how many bytes follow the next one, and the
range of the next one. -/
structure Begun where
  bits : Nat
  owed : Nat
  low : Nat
  high : Nat

/-- What the first byte of a longer character begins. -/
def lead (b : Nat) : Option Begun :=
  if 0xC2 ≤ b ∧ b ≤ 0xDF then some ⟨b - 0xC0, 0, 0x80, 0xBF⟩
  else if b = 0xE0 then some ⟨0, 1, 0xA0, 0xBF⟩
  else if b = 0xED then some ⟨0xD, 1, 0x80, 0x9F⟩
  else if 0xE1 ≤ b ∧ b ≤ 0xEF then some ⟨b - 0xE0, 1, 0x80, 0xBF⟩
  else if b = 0xF0 then some ⟨0, 2, 0x90, 0xBF⟩
  else if 0xF1 ≤ b ∧ b ≤ 0xF3 then some ⟨b - 0xF0, 2, 0x80, 0xBF⟩
  else if b = 0xF4 then some ⟨4, 2, 0x80, 0x8F⟩
  else none

/-- A byte between two characters. -/
def first (b : Nat) : List Char × Option Begun :=
  if b < 0x80 then ([Char.ofNat b], none)
  else
    match lead b with
    | some s => ([], some s)
    | none => ([replacement], none)

/-- One byte: the characters that are complete now, and what has begun. -/
def next (b : Nat) : Option Begun → List Char × Option Begun
  | none => first b
  | some s =>
    if s.low ≤ b ∧ b ≤ s.high then
      match s.owed with
      | 0 => ([Char.ofNat (s.bits * 64 + (b - 0x80))], none)
      | owed + 1 => ([], some ⟨s.bits * 64 + (b - 0x80), owed, 0x80, 0xBF⟩)
    else (replacement :: (first b).1, (first b).2)

/-- The text of the bytes, from where the machine stands. -/
def decodeFrom : Option Begun → List UInt8 → List Char
  | none, [] => []
  | some _, [] => [replacement]
  | s, b :: rest => (next b.toNat s).1 ++ decodeFrom (next b.toNat s).2 rest

/-- `bytes.decode("utf-8", errors="replace")`. -/
def decode (bytes : List UInt8) : List Char := decodeFrom none bytes

/-! ### The bytes of one character -/

/-- A byte that only continues a character. -/
def Continues (b : UInt8) : Prop := 0x80 ≤ b.toNat ∧ b.toNat ≤ 0xBF

/-- From where the machine stands the bytes complete the character, and no sooner. -/
inductive Spells (c : Char) : Option Begun → List UInt8 → Prop where
  | last {s : Option Begun} {b : UInt8} (hnext : next b.toNat s = ([c], none))
      (hcont : s.isSome = true → Continues b) : Spells c s [b]
  | step {s : Option Begun} {t : Begun} {b : UInt8} {rest : List UInt8}
      (hnext : next b.toNat s = ([], some t)) (hcont : s.isSome = true → Continues b)
      (hrest : Spells c (some t) rest) : Spells c s (b :: rest)

theorem toNat_ofNat {n : Nat} (h : n < 256) : (UInt8.ofNat n).toNat = n := by
  rw [UInt8.toNat_ofNat']
  exact Nat.mod_eq_of_lt h

theorem first_of_lead {b : Nat} {s : Begun} (hb : ¬ b < 0x80) (h : lead b = some s) :
    first b = ([], some s) := by
  rw [first, if_neg hb, h]

/-- The last byte of a character. -/
theorem next_last {bits low high b : Nat} (hlow : low ≤ b) (hhigh : b ≤ high) :
    next b (some ⟨bits, 0, low, high⟩) = ([Char.ofNat (bits * 64 + (b - 0x80))], none) :=
  if_pos ⟨hlow, hhigh⟩

/-- A byte inside a character. -/
theorem next_inner {bits owed low high b : Nat} (hlow : low ≤ b) (hhigh : b ≤ high) :
    next b (some ⟨bits, owed + 1, low, high⟩) =
      ([], some ⟨bits * 64 + (b - 0x80), owed, 0x80, 0xBF⟩) :=
  if_pos ⟨hlow, hhigh⟩

theorem lead_two {v : Nat} (h : 0x80 ≤ v) (hv : v ≤ 0x7FF) :
    lead (v / 64 % 0x20 + 0xC0) = some ⟨v / 64, 0, 0x80, 0xBF⟩ := by
  rw [lead, if_pos (by omega)]
  simp only [Option.some.injEq, Begun.mk.injEq, and_true]
  omega

/-- The range of the second byte leaves out the overlong encodings and the surrogates. -/
theorem lead_three {v : Nat} (h : 0x800 ≤ v) (hv : v ≤ 0xFFFF) (hsur : v < 0xD800 ∨ 0xDFFF < v) :
    ∃ low high, lead (v / 4096 % 0x10 + 0xE0) = some ⟨v / 4096, 1, low, high⟩ ∧
      low ≤ v / 64 % 0x40 + 0x80 ∧ v / 64 % 0x40 + 0x80 ≤ high := by
  unfold lead
  rw [if_neg (by omega)]
  split
  · exact ⟨0xA0, 0xBF, by simp only [Option.some.injEq, Begun.mk.injEq, and_true]; omega,
      by omega, by omega⟩
  · split
    · exact ⟨0x80, 0x9F, by simp only [Option.some.injEq, Begun.mk.injEq, and_true]; omega,
        by omega, by omega⟩
    · rw [if_pos (by omega)]
      exact ⟨0x80, 0xBF, by simp only [Option.some.injEq, Begun.mk.injEq, and_true]; omega,
        by omega, by omega⟩

/-- The range of the second byte leaves out the overlong encodings and what is no character. -/
theorem lead_four {v : Nat} (h : 0x10000 ≤ v) (hv : v < 0x110000) :
    ∃ low high, lead (v / 262144 % 0x08 + 0xF0) = some ⟨v / 262144, 2, low, high⟩ ∧
      low ≤ v / 4096 % 0x40 + 0x80 ∧ v / 4096 % 0x40 + 0x80 ≤ high := by
  unfold lead
  rw [if_neg (by omega), if_neg (by omega), if_neg (by omega), if_neg (by omega)]
  split
  · exact ⟨0x90, 0xBF, by simp only [Option.some.injEq, Begun.mk.injEq, and_true]; omega,
      by omega, by omega⟩
  · split
    · exact ⟨0x80, 0xBF, by simp only [Option.some.injEq, Begun.mk.injEq, and_true]; omega,
        by omega, by omega⟩
    · rw [if_pos (by omega)]
      exact ⟨0x80, 0x8F, by simp only [Option.some.injEq, Begun.mk.injEq, and_true]; omega,
        by omega, by omega⟩

/-- The last byte completes the character with the lowest six bits. -/
theorem spells_last {c : Char} {bits low high v : Nat} (hbits : bits * 64 + v % 0x40 = c.toNat)
    (hlow : low ≤ v % 0x40 + 0x80) (hhigh : v % 0x40 + 0x80 ≤ high) :
    Spells c (some ⟨bits, 0, low, high⟩) [UInt8.ofNat (v % 0x40 + 0x80)] := by
  have hbyte : (UInt8.ofNat (v % 0x40 + 0x80)).toNat = v % 0x40 + 0x80 := toNat_ofNat (by omega)
  refine .last ?_ fun _ ↦ ⟨by omega, by omega⟩
  rw [hbyte, next_last hlow hhigh, Nat.add_sub_cancel, hbits, Char.ofNat_toNat]

/-- A byte inside adds six bits. -/
theorem spells_inner {c : Char} {bits owed low high v : Nat} {rest : List UInt8}
    (hlow : low ≤ v % 0x40 + 0x80) (hhigh : v % 0x40 + 0x80 ≤ high)
    (hrest : Spells c (some ⟨bits * 64 + v % 0x40, owed, 0x80, 0xBF⟩) rest) :
    Spells c (some ⟨bits, owed + 1, low, high⟩) (UInt8.ofNat (v % 0x40 + 0x80) :: rest) := by
  have hbyte : (UInt8.ofNat (v % 0x40 + 0x80)).toNat = v % 0x40 + 0x80 := toNat_ofNat (by omega)
  refine .step ?_ (fun _ ↦ ⟨by omega, by omega⟩) hrest
  rw [hbyte, next_inner hlow hhigh, Nat.add_sub_cancel]

/-- UTF-8 spells every character. -/
theorem spells_encode (c : Char) : Spells c none (String.utf8EncodeChar c) := by
  have hvalid : c.toNat < 0xD800 ∨ 0xDFFF < c.toNat ∧ c.toNat < 0x110000 := c.valid
  have hval : c.val.toNat = c.toNat := rfl
  unfold String.utf8EncodeChar
  simp only [hval]
  split
  · next h1 =>
    refine .last ?_ nofun
    rw [toNat_ofNat (by omega), next, first, if_pos (by omega), Char.ofNat_toNat]
  · next h1 =>
    split
    · next h2 =>
      have hlead := lead_two (by omega) h2
      refine .step (t := ⟨c.toNat / 64, 0, 0x80, 0xBF⟩) ?_ nofun ?_
      · rw [toNat_ofNat (by omega), next]
        exact first_of_lead (by omega) hlead
      · exact spells_last (by omega) (by omega) (by omega)
    · next h2 =>
      split
      · next h3 =>
        obtain ⟨low, high, hlead, hlow, hhigh⟩ := lead_three (by omega) h3 (by omega)
        refine .step (t := ⟨c.toNat / 4096, 1, low, high⟩) ?_ nofun ?_
        · rw [toNat_ofNat (by omega), next]
          exact first_of_lead (by omega) hlead
        · exact spells_inner hlow hhigh (spells_last (by omega) (by omega) (by omega))
      · next h3 =>
        obtain ⟨low, high, hlead, hlow, hhigh⟩ := lead_four (v := c.toNat) (by omega) (by omega)
        refine .step (t := ⟨c.toNat / 262144, 2, low, high⟩) ?_ nofun ?_
        · rw [toNat_ofNat (by omega), next]
          exact first_of_lead (by omega) hlead
        · exact spells_inner hlow hhigh (spells_inner (by omega) (by omega)
            (spells_last (by omega) (by omega) (by omega)))

/-! ### Whole characters and parts of them -/

theorem decodeFrom_cons (s : Option Begun) (b : UInt8) (rest : List UInt8) :
    decodeFrom s (b :: rest) = (next b.toNat s).1 ++ decodeFrom (next b.toNat s).2 rest := by
  cases s <;> rfl

section Spells

variable {c : Char} {s : Option Begun} {bytes : List UInt8}

/-- Bytes that spell a character are decoded to it. -/
theorem Spells.decode_append (h : Spells c s bytes) (rest : List UInt8) :
    decodeFrom s (bytes ++ rest) = c :: decodeFrom none rest := by
  induction h with
  | last hnext =>
    rw [List.singleton_append, decodeFrom_cons, hnext, List.singleton_append]
  | step hnext _ _ ih => rw [List.cons_append, decodeFrom_cons, hnext, List.nil_append, ih]

/-- Some of the bytes of a character, but not all, are decoded to one replacement. -/
theorem Spells.decode_prefix (h : Spells c s bytes) {part rest : List UInt8}
    (hsplit : bytes = part ++ rest) (hpart : part ≠ [] ∨ s.isSome = true) (hrest : rest ≠ []) :
    decodeFrom s part = [replacement] := by
  induction h generalizing part with
  | @last s b hnext _ =>
    cases part with
    | nil =>
      obtain ⟨t, rfl⟩ := Option.isSome_iff_exists.mp (hpart.resolve_left (by simp))
      rfl
    | cons a part =>
      have hnil : part ++ rest = [] := by simpa using (List.cons.inj hsplit).2.symm
      exact absurd (List.append_eq_nil_iff.mp hnil).2 hrest
  | @step s t b bytes hnext _ _ ih =>
    cases part with
    | nil =>
      obtain ⟨t, rfl⟩ := Option.isSome_iff_exists.mp (hpart.resolve_left (by simp))
      rfl
    | cons a part =>
      obtain ⟨rfl, hbytes⟩ := List.cons.inj hsplit
      rw [decodeFrom_cons, hnext, List.nil_append]
      exact ih hbytes (.inr rfl)

/-- All bytes of a character but the first continue it. -/
theorem Spells.continues (h : Spells c s bytes) {part rest : List UInt8}
    (hsplit : bytes = part ++ rest) (hpart : part ≠ [] ∨ s.isSome = true) :
    ∀ b ∈ rest, Continues b := by
  induction h generalizing part rest with
  | @last s b _ hcont =>
    cases part with
    | nil =>
      rw [List.nil_append] at hsplit
      subst hsplit
      intro x hx
      cases List.mem_singleton.mp hx
      exact hcont (hpart.resolve_left (by simp))
    | cons a part =>
      have hnil : part ++ rest = [] := by simpa using (List.cons.inj hsplit).2.symm
      rw [(List.append_eq_nil_iff.mp hnil).2]
      nofun
  | @step s t b bytes _ hcont _ ih =>
    cases part with
    | nil =>
      rw [List.nil_append] at hsplit
      subst hsplit
      intro x hx
      rcases List.mem_cons.mp hx with rfl | hx
      · exact hcont (hpart.resolve_left (by simp))
      · exact ih (List.nil_append _).symm (.inr rfl) x hx
    | cons a part => exact ih (List.cons.inj hsplit).2 (.inr rfl)

end Spells

/-- A byte that only continues a character begins none. -/
theorem decode_continues {b : UInt8} (h : Continues b) (rest : List UInt8) :
    decode (b :: rest) = replacement :: decode rest := by
  obtain ⟨hlow, hhigh⟩ := h
  have hlead : lead b.toNat = none := by
    unfold lead
    repeat rw [if_neg (by omega)]
  have hnext : next b.toNat none = ([replacement], none) := by
    rw [next, first, if_neg (by omega), hlead]
  rw [decode, decodeFrom_cons, hnext, List.singleton_append, decode]

theorem decode_encode_append (c : Char) (rest : List UInt8) :
    decode (String.utf8EncodeChar c ++ rest) = c :: decode rest :=
  (spells_encode c).decode_append rest

/-- The bytes of a text are decoded to the text. -/
theorem decode_encode (text : List Char) : decode (encode text) = text := by
  induction text with
  | nil => rfl
  | cons c rest ih => rw [encode, List.flatMap_cons, decode_encode_append, ← encode, ih]

/-! ### A text in pieces -/

/-- How many bytes there are up to the end of each piece. -/
def ends : List (List UInt8) → List Nat
  | [] => []
  | chunk :: rest => chunk.length :: (ends rest).map (chunk.length + ·)

/-- The pieces without their first bytes. -/
def dropBytes : Nat → List (List UInt8) → List (List UInt8)
  | _, [] => []
  | n, chunk :: rest =>
    if chunk.length < n then dropBytes (n - chunk.length) rest else chunk.drop n :: rest

theorem flatten_dropBytes (n : Nat) (chunks : List (List UInt8)) :
    (dropBytes n chunks).flatten = chunks.flatten.drop n := by
  induction chunks generalizing n with
  | nil => simp [dropBytes]
  | cons chunk rest ih =>
    rw [dropBytes, List.flatten_cons, List.drop_append]
    split
    · next h => rw [ih, List.drop_of_length_le (Nat.le_of_lt h), List.nil_append]
    · next h =>
      rw [Nat.sub_eq_zero_of_le (Nat.le_of_not_lt h), List.drop_zero, List.flatten_cons]

/-- The ends of the pieces that remain are those of the pieces further on. -/
theorem mem_ends_dropBytes {n m : Nat} (hm : 0 < m) (chunks : List (List UInt8)) :
    m ∈ ends (dropBytes n chunks) ↔ n + m ∈ ends chunks := by
  induction chunks generalizing n with
  | nil => simp [dropBytes, ends]
  | cons chunk rest ih =>
    rw [dropBytes]
    split
    · next h =>
      rw [ih, ends, List.mem_cons, List.mem_map]
      constructor
      · intro hmem
        exact .inr ⟨_, hmem, by omega⟩
      · rintro (heq | ⟨k, hk, heq⟩)
        · omega
        · obtain rfl : k = n - chunk.length + m := by omega
          exact hk
    · next h =>
      rw [ends, ends, List.mem_cons, List.mem_cons, List.length_drop, List.mem_map, List.mem_map]
      constructor
      · rintro (heq | ⟨k, hk, heq⟩)
        · exact .inl (by omega)
        · exact .inr ⟨k, hk, by omega⟩
      · rintro (heq | ⟨k, hk, heq⟩)
        · exact .inl (by omega)
        · exact .inr ⟨k, hk, by omega⟩

/-- A piece ends strictly inside the `size` bytes from `start` on. -/
def torn (start size : Nat) (cuts : List Nat) : Bool :=
  cuts.any fun n ↦ start < n ∧ n < start + size

/-- The characters of a text whose first byte is at `start`, each with whether a cut tears it. -/
def marked (start : Nat) (cuts : List Nat) : List Char → List (Char × Bool)
  | [] => []
  | c :: rest =>
    (c, torn start (String.utf8EncodeChar c).length cuts) ::
      marked (start + (String.utf8EncodeChar c).length) cuts rest

/-- What the pieces of a text are decoded to: a torn character becomes several replacements. -/
inductive Decoded : List (Char × Bool) → List Char → Prop where
  | nil : Decoded [] []
  | whole {c : Char} {marks : List (Char × Bool)} {text : List Char} (h : Decoded marks text) :
      Decoded ((c, false) :: marks) (c :: text)
  | torn {c : Char} {marks : List (Char × Bool)} {text : List Char} (k : Nat)
      (h : Decoded marks text) :
      Decoded ((c, true) :: marks) (List.replicate (k + 2) replacement ++ text)

theorem torn_congr {start size : Nat} {cuts cuts' : List Nat}
    (h : ∀ n, start < n → (n ∈ cuts ↔ n ∈ cuts')) :
    torn start size cuts = torn start size cuts' := by
  rw [Bool.eq_iff_iff, torn, torn, List.any_eq_true, List.any_eq_true]
  refine exists_congr fun n ↦ and_congr_left fun hn ↦ h n ?_
  exact (of_decide_eq_true hn).1

theorem decode_continues_append {bytes : List UInt8} (hcont : ∀ b ∈ bytes, Continues b)
    (rest : List UInt8) :
    decode (bytes ++ rest) = List.replicate bytes.length replacement ++ decode rest := by
  induction bytes with
  | nil => rfl
  | cons b bytes ih =>
    rw [List.cons_append, decode_continues (hcont b List.mem_cons_self),
      ih fun x hx ↦ hcont x (List.mem_cons_of_mem b hx)]
    rfl

/-- Bytes that only continue a character become as many replacements, wherever the pieces end. -/
theorem decode_chunks_continues {bytes rest : List UInt8} (hcont : ∀ b ∈ bytes, Continues b)
    (chunks : List (List UInt8)) (h : chunks.flatten = bytes ++ rest) :
    chunks.flatMap decode = List.replicate bytes.length replacement ++
      (dropBytes bytes.length chunks).flatMap decode := by
  induction chunks generalizing bytes with
  | nil =>
    obtain rfl : bytes = [] := (List.append_eq_nil_iff.mp h.symm).1
    rfl
  | cons chunk chunks ih =>
    rw [List.flatten_cons] at h
    rw [List.flatMap_cons, dropBytes]
    split
    · next hlt =>
      obtain ⟨more, rfl, hmore⟩ | ⟨more, rfl, -⟩ := List.append_eq_append_iff.mp h
      · have hall := decode_continues_append
          (fun b hb ↦ hcont b (List.mem_append_left more hb)) []
        rw [List.append_nil] at hall
        rw [hall, ih (fun b hb ↦ hcont b (List.mem_append_right chunk hb)) hmore,
          List.length_append, Nat.add_sub_cancel_left, show decode [] = [] from rfl,
          List.append_nil, ← List.append_assoc, List.replicate_append_replicate]
      · rw [List.length_append] at hlt
        omega
    · next hle =>
      obtain ⟨more, rfl⟩ : ∃ more, chunk = bytes ++ more := by
        obtain ⟨more, rfl, -⟩ | ⟨more, hchunk, -⟩ := List.append_eq_append_iff.mp h
        · rw [List.length_append] at hle
          obtain rfl : more = [] := List.length_eq_zero_iff.mp (by omega)
          exact ⟨[], by simp⟩
        · exact ⟨more, hchunk⟩
      rw [decode_continues_append hcont, List.flatMap_cons, List.drop_left, List.append_assoc]

theorem length_encode_pos (c : Char) : 0 < (String.utf8EncodeChar c).length := by
  rw [String.length_utf8EncodeChar]
  exact c.utf8Size_pos

/-- The first character of a text in pieces: it is decoded as a whole, or torn. -/
theorem decode_chunks_char {c : Char} {rest : List UInt8} (chunks : List (List UInt8))
    (h : chunks.flatten = String.utf8EncodeChar c ++ rest) :
    (torn 0 (String.utf8EncodeChar c).length (ends chunks) = false ∧ chunks.flatMap decode =
      c :: (dropBytes (String.utf8EncodeChar c).length chunks).flatMap decode) ∨
    (torn 0 (String.utf8EncodeChar c).length (ends chunks) = true ∧ ∃ k, chunks.flatMap decode =
      List.replicate (k + 2) replacement ++
        (dropBytes (String.utf8EncodeChar c).length chunks).flatMap decode) := by
  have hpos := length_encode_pos c
  have hspells := spells_encode c
  generalize String.utf8EncodeChar c = bytes at h hpos hspells
  induction chunks with
  | nil =>
    rw [(List.append_eq_nil_iff.mp h.symm).1] at hpos
    cases hpos
  | cons chunk chunks ih =>
    rw [List.flatten_cons] at h
    rw [List.flatMap_cons, dropBytes]
    split
    · next hlt =>
      obtain ⟨more, rfl, hmore⟩ | ⟨more, rfl, -⟩ := List.append_eq_append_iff.mp h
      · cases chunk with
        | nil =>
          have htorn : torn 0 ([] ++ more).length (ends ([] :: chunks)) =
              torn 0 ([] ++ more).length (ends chunks) := by
            refine torn_congr fun n hn ↦ ?_
            simp only [ends, List.length_nil, List.mem_cons, List.mem_map]
            constructor
            · rintro (rfl | ⟨k, hk, rfl⟩)
              · omega
              · rwa [Nat.zero_add]
            · intro hmem
              exact .inr ⟨n, hmem, Nat.zero_add n⟩
          rw [htorn]
          exact ih hmore
        | cons b chunk =>
          have hmore' : more ≠ [] := by
            rintro rfl
            simp at hlt
          refine .inr ⟨?_, more.length - 1, ?_⟩
          · rw [torn, List.any_eq_true]
            exact ⟨_, List.mem_cons_self, decide_eq_true ⟨by simp, by omega⟩⟩
          · have hpart : decode (b :: chunk) = [replacement] :=
              hspells.decode_prefix rfl (.inl (by simp)) hmore'
            have hlen : 0 < more.length := List.length_pos_of_ne_nil hmore'
            rw [hpart, decode_chunks_continues (hspells.continues rfl (.inl (by simp))) chunks hmore,
              List.length_append, Nat.add_sub_cancel_left,
              show more.length - 1 + 2 = 1 + more.length by omega, List.replicate_add]
            rfl
      · rw [List.length_append] at hlt
        omega
    · next hle =>
      obtain ⟨more, rfl⟩ : ∃ more, chunk = bytes ++ more := by
        obtain ⟨more, rfl, -⟩ | ⟨more, hchunk, -⟩ := List.append_eq_append_iff.mp h
        · rw [List.length_append] at hle
          obtain rfl : more = [] := List.length_eq_zero_iff.mp (by omega)
          exact ⟨[], by simp⟩
        · exact ⟨more, hchunk⟩
      refine .inl ⟨?_, ?_⟩
      · rw [torn, List.any_eq_false]
        intro n hn
        rw [ends, List.mem_cons, List.mem_map, List.length_append] at hn
        simp only [decide_eq_true_eq, not_and, Nat.not_lt, Nat.zero_add]
        rintro -
        rcases hn with rfl | ⟨k, -, rfl⟩ <;> omega
      · rw [decode, hspells.decode_append, List.flatMap_cons, List.drop_left]
        rfl

/-- What a text is decoded to when it comes in pieces. -/
theorem decoded_marked (text : List Char) {start : Nat} {cuts : List Nat}
    (chunks : List (List UInt8)) (h : chunks.flatten = encode text)
    (hcuts : ∀ n, 0 < n → (n ∈ ends chunks ↔ start + n ∈ cuts)) :
    Decoded (marked start cuts text) (chunks.flatMap decode) := by
  induction text generalizing start chunks with
  | nil =>
    have hnil : chunks.flatMap decode = [] := by
      rw [List.flatMap_eq_nil_iff]
      intro chunk hchunk
      rw [List.flatten_eq_nil_iff.mp h chunk hchunk]
      rfl
    rw [hnil]
    exact .nil
  | cons c rest ih =>
    have htorn : torn start (String.utf8EncodeChar c).length cuts =
        torn 0 (String.utf8EncodeChar c).length (ends chunks) := by
      rw [Bool.eq_iff_iff, torn, torn, List.any_eq_true, List.any_eq_true]
      simp only [decide_eq_true_eq]
      constructor
      · rintro ⟨n, hn, hlow, hhigh⟩
        refine ⟨n - start, (hcuts _ (by omega)).mpr ?_, by omega, by omega⟩
        rwa [Nat.add_sub_cancel' (Nat.le_of_lt hlow)]
      · rintro ⟨n, hn, hlow, hhigh⟩
        exact ⟨start + n, (hcuts n hlow).mp hn, by omega, by omega⟩
    have hrest : Decoded (marked (start + (String.utf8EncodeChar c).length) cuts rest)
        ((dropBytes (String.utf8EncodeChar c).length chunks).flatMap decode) := by
      refine ih _ ?_ fun n hn ↦ ?_
      · rw [flatten_dropBytes, h, encode, List.flatMap_cons, List.drop_left]
        rfl
      · rw [mem_ends_dropBytes hn, hcuts _ (by omega), Nat.add_assoc]
    rw [marked, htorn]
    obtain ⟨hwhole, hdecode⟩ | ⟨hpart, k, hdecode⟩ := decode_chunks_char chunks h
    · rw [hwhole, hdecode]
      exact .whole hrest
    · rw [hpart, hdecode]
      exact .torn k hrest

/-- A text without torn characters is decoded to itself. -/
theorem Decoded.eq_of_whole {marks : List (Char × Bool)} {text : List Char} (h : Decoded marks text)
    (hmarks : ∀ m ∈ marks, m.2 = false) : text = marks.map Prod.fst := by
  induction h with
  | nil => rfl
  | @whole c marks text _ ih =>
    rw [List.map_cons, ← ih fun m hm ↦ hmarks m (List.mem_cons_of_mem _ hm)]
  | torn k => cases hmarks _ List.mem_cons_self

/-- Torn characters add replacements. -/
theorem Decoded.count_replacement {marks : List (Char × Bool)} {text : List Char}
    (h : Decoded marks text) : (marks.map Prod.fst).count replacement ≤ text.count replacement ∧
      ((∃ m ∈ marks, m.2 = true) →
        (marks.map Prod.fst).count replacement < text.count replacement) := by
  induction h with
  | nil => simp
  | @whole c marks text _ ih =>
    obtain ⟨hle, hlt⟩ := ih
    simp only [List.map_cons, List.count_cons]
    refine ⟨by omega, ?_⟩
    rintro ⟨m, hm, htorn⟩
    rcases List.mem_cons.mp hm with rfl | hm
    · cases htorn
    · have hmore := hlt ⟨m, hm, htorn⟩
      omega
  | @torn c marks text k _ ih =>
    obtain ⟨hle, -⟩ := ih
    simp only [List.map_cons, List.count_cons, List.count_append, List.count_replicate_self]
    have hone : (if (c == replacement) = true then 1 else 0) ≤ 1 := by split <;> omega
    exact ⟨by omega, fun _ ↦ by omega⟩

end GithubAgent.Base.Utf8
