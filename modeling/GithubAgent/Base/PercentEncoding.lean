import GithubAgent.Base.Separators
import GithubAgent.Base.Utf8
import Mathlib.Data.List.SplitBy

/-!
# Percent encoding

`quote`, `unquote`, `unquote_plus` and `parse_qsl` of `urllib.parse`. What is quoted is read back,
and a query whose names and values do not contain the separators is read back field by field.
-/

namespace GithubAgent.Base

/-- `_ALWAYS_SAFE`. -/
def isUnreserved (c : Char) : Bool := c.isAlphanum || c = '_' || c = '.' || c = '-' || c = '~'

def isAscii (c : Char) : Bool := c.toNat < 128

/-- A digit of `'%\x7b:02X\x7d'`. -/
def upperHexDigit (n : Nat) : Char := if n < 10 then Char.ofNat (48 + n) else Char.ofNat (55 + n)

/-- The value of a hexadecimal digit. -/
def hexValue (c : Char) : Option Nat :=
  if '0' ≤ c ∧ c ≤ '9' then some (c.toNat - 48)
  else if 'A' ≤ c ∧ c ≤ 'F' then some (c.toNat - 55)
  else if 'a' ≤ c ∧ c ≤ 'f' then some (c.toNat - 87)
  else none

/-- The byte as it is, if it is one of these characters, or in hexadecimal digits. -/
def quoteByte (safe : Char → Bool) (b : UInt8) : List Char :=
  if b.toNat < 128 ∧ (isUnreserved (Char.ofNat b.toNat) || safe (Char.ofNat b.toNat)) = true then
    [Char.ofNat b.toNat]
  else ['%', upperHexDigit (b.toNat / 16), upperHexDigit (b.toNat % 16)]

/-- `quote(text, safe)`. -/
def quote (safe : Char → Bool) (text : List Char) : List Char :=
  (Utf8.encode text).flatMap (quoteByte safe)

/-- `unquote_to_bytes` on ASCII characters. -/
def unquoteToBytes : List Char → List UInt8
  | '%' :: a :: b :: rest =>
    match hexValue a, hexValue b with
    | some x, some y => UInt8.ofNat (16 * x + y) :: unquoteToBytes rest
    | _, _ => UInt8.ofNat '%'.toNat :: unquoteToBytes (a :: b :: rest)
  | c :: rest => UInt8.ofNat c.toNat :: unquoteToBytes rest
  | [] => []

/-- `unquote`: the runs of ASCII characters are decoded. -/
def unquote (text : List Char) : List Char :=
  (text.splitBy fun a b ↦ isAscii a == isAscii b).flatMap fun run ↦
    if run.all isAscii then Utf8.decode (unquoteToBytes run) else run

/-- `unquote_plus`. -/
def unquotePlus (text : List Char) : List Char :=
  unquote (text.map fun c ↦ if c = '+' then ' ' else c)

/-- `parse_qsl(text, keep_blank_values=True)`. -/
def parseQsl (text : List Char) : List (List Char × List Char) :=
  ((text.splitOn '&').filter (!·.isEmpty)).map fun part ↦
    (unquotePlus (part.takeWhile (· ≠ '=')), unquotePlus ((part.dropWhile (· ≠ '=')).drop 1))

section Quote

variable {safe : Char → Bool}

theorem toNat_ofNat_of_lt {n : Nat} (h : n < 256) : (Char.ofNat n).toNat = n := by
  have hvalid : n.isValidChar := .inl (by omega)
  rw [Char.ofNat, dif_pos hvalid]
  rfl

theorem upperHexDigit_spec {n : Nat} (h : n < 16) : hexValue (upperHexDigit n) = some n ∧
    isAscii (upperHexDigit n) = true ∧ isUnreserved (upperHexDigit n) = true := by
  revert n
  decide

/-- What a byte is written as is read back. -/
theorem unquoteToBytes_quoteByte (hpercent : safe '%' = false) (b : UInt8) (rest : List Char) :
    unquoteToBytes (quoteByte safe b ++ rest) = b :: unquoteToBytes rest := by
  have hb : b.toNat < 256 := b.toNat_lt
  unfold quoteByte
  split
  · next hkept =>
    have hne : Char.ofNat b.toNat ≠ '%' := by
      intro heq
      rw [heq, hpercent] at hkept
      exact absurd hkept.2 (by decide)
    rw [List.singleton_append, unquoteToBytes, toNat_ofNat_of_lt hb, UInt8.ofNat_toNat]
    intro a b rest heq
    exact absurd heq hne
  · rw [List.cons_append, List.cons_append, List.cons_append, List.nil_append, unquoteToBytes,
      (upperHexDigit_spec (by omega : b.toNat / 16 < 16)).1,
      (upperHexDigit_spec (by omega : b.toNat % 16 < 16)).1]
    dsimp only
    rw [Nat.div_add_mod, UInt8.ofNat_toNat]

theorem unquoteToBytes_quote (hpercent : safe '%' = false) (bytes : List UInt8) :
    unquoteToBytes (bytes.flatMap (quoteByte safe)) = bytes := by
  induction bytes with
  | nil => rfl
  | cons b rest ih => rw [List.flatMap_cons, unquoteToBytes_quoteByte hpercent, ih]

/-- The characters of a text that was quoted. -/
theorem mem_quote {text : List Char} {c : Char} (h : c ∈ quote safe text) :
    isAscii c = true ∧ (isUnreserved c = true ∨ safe c = true ∨ c = '%') := by
  obtain ⟨b, -, hc⟩ := List.mem_flatMap.mp h
  have hb : b.toNat < 256 := b.toNat_lt
  have hdigit (n : Nat) (hn : n < 16) (hc : c = upperHexDigit n) :
      isAscii c = true ∧ (isUnreserved c = true ∨ safe c = true ∨ c = '%') := by
    obtain ⟨-, hascii, hunreserved⟩ := upperHexDigit_spec hn
    exact hc ▸ ⟨hascii, .inl hunreserved⟩
  unfold quoteByte at hc
  split at hc
  · next hkept =>
    cases List.mem_singleton.mp hc
    refine ⟨decide_eq_true (by rw [toNat_ofNat_of_lt hb]; exact hkept.1), ?_⟩
    rcases Bool.or_eq_true_iff.mp hkept.2 with hunreserved | hsafe
    · exact .inl hunreserved
    · exact .inr (.inl hsafe)
  · rcases List.mem_cons.mp hc with rfl | hc
    · exact ⟨rfl, .inr (.inr rfl)⟩
    · rcases List.mem_cons.mp hc with hc | hc
      · exact hdigit _ (by omega) hc
      · exact hdigit _ (Nat.mod_lt _ (by omega)) (List.mem_singleton.mp hc)

/-- A text of ASCII characters is one run. -/
theorem unquote_of_ascii {text : List Char} (h : ∀ c ∈ text, isAscii c = true) :
    unquote text = Utf8.decode (unquoteToBytes text) := by
  by_cases hne : text = []
  · subst hne
    rfl
  · have hchain : text.IsChain fun a b ↦ isAscii a == isAscii b := by
      refine List.Pairwise.isChain (List.pairwise_of_forall_mem_list fun a ha b hb ↦ ?_)
      rw [h a ha, h b hb]
      rfl
    rw [unquote, List.splitBy_of_isChain hne hchain, List.flatMap_singleton,
      if_pos (List.all_eq_true.mpr h)]

/-- `unquote(quote(text)) == text`. -/
theorem unquote_quote (hpercent : safe '%' = false) (text : List Char) :
    unquote (quote safe text) = text := by
  rw [unquote_of_ascii fun c hc ↦ (mem_quote hc).1, quote, unquoteToBytes_quote hpercent,
    Utf8.decode_encode]

/-- `unquote_plus(quote(text)) == text`. -/
theorem unquotePlus_quote (hpercent : safe '%' = false) (hplus : safe '+' = false)
    (text : List Char) : unquotePlus (quote safe text) = text := by
  have hmap : (quote safe text).map (fun c ↦ if c = '+' then ' ' else c) = quote safe text := by
    refine (List.map_congr_left fun c hc ↦ if_neg ?_).trans (List.map_id _)
    rintro rfl
    rcases (mem_quote hc).2 with h | h | h
    · exact absurd h (by decide)
    · rw [hplus] at h
      cases h
    · exact absurd h (by decide)
  rw [unquotePlus, hmap, unquote_quote hpercent]

/-- Such a character is not changed. -/
theorem quote_eq_self {text : List Char}
    (h : ∀ c ∈ text, isAscii c = true ∧ (isUnreserved c || safe c) = true) :
    quote safe text = text := by
  induction text with
  | nil => rfl
  | cons c rest ih =>
    obtain ⟨hascii, hkept⟩ := h c List.mem_cons_self
    have hlt : c.toNat < 128 := of_decide_eq_true hascii
    have hchar : String.utf8EncodeChar c = [UInt8.ofNat c.toNat] :=
      if_pos (Nat.le_of_lt_succ hlt)
    have hbyte : (UInt8.ofNat c.toNat).toNat = c.toNat := Utf8.toNat_ofNat (by omega)
    have hrest := ih fun d hd ↦ h d (List.mem_cons_of_mem _ hd)
    rw [quote, Utf8.encode] at hrest ⊢
    rw [List.flatMap_cons, hchar, List.flatMap_append, hrest, List.flatMap_singleton, quoteByte,
      hbyte, Char.ofNat_toNat, if_pos ⟨hlt, hkept⟩, List.singleton_append]

end Quote

/-- The fields of a query are read back. -/
theorem parseQsl_intercalate {fields : List (List Char × List Char)}
    (h : ∀ f ∈ fields, '&' ∉ f.1 ∧ '=' ∉ f.1 ∧ '&' ∉ f.2) :
    parseQsl (['&'].intercalate (fields.map fun f ↦ f.1 ++ '=' :: f.2)) =
      fields.map fun f ↦ (unquotePlus f.1, unquotePlus f.2) := by
  by_cases hne : fields = []
  · subst hne
    rfl
  · have hsplit : (['&'].intercalate (fields.map fun f ↦ f.1 ++ '=' :: f.2)).splitOn '&' =
        fields.map fun f ↦ f.1 ++ '=' :: f.2 := by
      refine List.splitOn_intercalate '&' ?_ (by simpa using hne)
      intro part hpart
      obtain ⟨f, hf, rfl⟩ := List.mem_map.mp hpart
      obtain ⟨hname, -, hvalue⟩ := h f hf
      simp [hname, hvalue]
    rw [parseQsl, hsplit, List.filter_eq_self.mpr, List.map_map]
    · refine List.map_congr_left fun f hf ↦ ?_
      have hname : ∀ c ∈ f.1, decide (c ≠ '=') = true := by
        intro c hc
        refine decide_eq_true ?_
        rintro rfl
        exact (h f hf).2.1 hc
      rw [Function.comp_apply, List.takeWhile_append_of_pos hname,
        List.dropWhile_append_of_pos hname]
      simp
    · intro part hpart
      obtain ⟨f, -, rfl⟩ := List.mem_map.mp hpart
      simp

end GithubAgent.Base
