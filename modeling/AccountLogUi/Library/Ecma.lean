import AccountLogUi.Library.Hex
import Mathlib.Data.List.DropRight

/-!
# Text in ECMAScript

A string of ECMAScript is UTF-16: `codeUnits` are those of one character, and `length` counts them.
`trim` takes off white space and line ends, and `encodeURIComponent` escapes the UTF-8 bytes of
whatever is not unreserved.  `replaceEscapes` puts one character in the place of every escape, so
that what is left is as long as the UTF-8 of the text (`length_replaceEscapes`).
-/

namespace AccountLogUi.Ecma

/-- The number is in one of the ranges. -/
def inRanges (ranges : List (ℕ × ℕ)) (n : ℕ) : Bool :=
  ranges.any fun range => range.1 ≤ n && n ≤ range.2

/-! ### Strings -/

/-- The UTF-16 code units of a character. -/
def codeUnits (c : Char) : List ℕ :=
  if c.toNat < 0x10000 then [c.toNat]
  else [0xD800 + (c.toNat - 0x10000) / 0x400, 0xDC00 + (c.toNat - 0x10000) % 0x400]

/-- `String.length`. -/
def length (text : List Char) : ℕ := (text.flatMap codeUnits).length

/-- WhiteSpace and LineTerminator. -/
def isSpace (c : Char) : Bool :=
  inRanges [(0x09, 0x0D), (0x20, 0x20), (0xA0, 0xA0), (0x1680, 0x1680), (0x2000, 0x200A),
    (0x2028, 0x2029), (0x202F, 0x202F), (0x205F, 0x205F), (0x3000, 0x3000), (0xFEFF, 0xFEFF)]
    c.toNat

/-- `String.prototype.trim`. -/
def trim (text : List Char) : List Char := (text.dropWhile isSpace).rdropWhile isSpace

/-! ### Escapes -/

/-- What `encodeURIComponent` leaves as it is. -/
def unreserved (c : Char) : Bool :=
  inRanges [(0x30, 0x39), (0x41, 0x5A), (0x61, 0x7A)] c.toNat || "-_.!~*'()".toList.contains c

/-- An uppercase digit, of a value below sixteen. -/
def digit (n : ℕ) : Char := if n < 10 then Char.ofNat (0x30 + n) else Char.ofNat (0x37 + n)

/-- A byte, as an escape. -/
def escape (b : UInt8) : List Char := ['%', digit (b.toNat / 16), digit (b.toNat % 16)]

def encodeURIComponent (text : List Char) : List Char :=
  text.flatMap fun c => if unreserved c then [c] else (String.utf8EncodeChar c).flatMap escape

/-- `[0-9A-F]`. -/
def isUpperHex (c : Char) : Bool := inRanges [(0x30, 0x39), (0x41, 0x46)] c.toNat

/-- `text.replace(/%[0-9A-F]{2}/g, by)`, for one character. -/
def replaceEscapes (mark : Char) : List Char → List Char
  | c :: a :: b :: rest =>
    if c = '%' && isUpperHex a && isUpperHex b then mark :: replaceEscapes mark rest
    else c :: replaceEscapes mark (a :: b :: rest)
  | text => text

/-! ### What is counted -/

/-- A character of the basic plane counts as one. -/
theorem length_cons {c : Char} (hc : c.toNat < 0x10000) (rest : List Char) :
    length (c :: rest) = 1 + length rest := by
  simp [length, codeUnits, hc]
  omega

theorem isUpperHex_digit {n : ℕ} (hn : n < 16) : isUpperHex (digit n) = true := by
  interval_cases n <;> decide

/-- An escape is replaced. -/
theorem replaceEscapes_escape (mark : Char) (b : UInt8) (rest : List Char) :
    replaceEscapes mark (escape b ++ rest) = mark :: replaceEscapes mark rest := by
  have hb : b.toNat < 256 := b.toNat_lt
  have hhigh : isUpperHex (digit (b.toNat / 16)) = true := isUpperHex_digit (by omega)
  have hlow : isUpperHex (digit (b.toNat % 16)) = true := isUpperHex_digit (by omega)
  show replaceEscapes mark ('%' :: digit (b.toNat / 16) :: digit (b.toNat % 16) :: rest) = _
  rw [replaceEscapes, hhigh, hlow]
  rfl

/-- What does not start an escape is left. -/
theorem replaceEscapes_cons (mark : Char) {c : Char} (hc : c ≠ '%') (rest : List Char) :
    replaceEscapes mark (c :: rest) = c :: replaceEscapes mark rest := by
  match rest with
  | [] => simp [replaceEscapes]
  | [a] => simp [replaceEscapes]
  | a :: b :: rest =>
    rw [replaceEscapes]
    simp [hc]

/-- Several escapes count one each. -/
theorem length_escapes {mark : Char} (hmark : mark.toNat < 0x10000) (bytes : List UInt8)
    (rest : List Char) : length (replaceEscapes mark (bytes.flatMap escape ++ rest)) =
      bytes.length + length (replaceEscapes mark rest) := by
  induction bytes with
  | nil => simp
  | cons b bytes ih =>
    rw [List.flatMap_cons, List.append_assoc, replaceEscapes_escape, length_cons hmark, ih,
      List.length_cons]
    omega

/-- What is left as it is is one byte of UTF-8, and starts no escape. -/
theorem unreserved_ascii {c : Char} (h : unreserved c = true) : c.toNat < 0x80 ∧ c ≠ '%' := by
  rcases (Bool.or_eq_true _ _).mp h with hrange | hmark
  · have hbounds : 0x30 ≤ c.toNat ∧ c.toNat ≤ 0x7A := by
      simp only [inRanges, List.any_cons, List.any_nil, Bool.or_eq_true, Bool.and_eq_true,
        decide_eq_true_eq, Bool.or_false] at hrange
      omega
    refine ⟨by omega, ?_⟩
    rintro rfl
    exact absurd hbounds.1 (by decide)
  · have hall : "-_.!~*'()".toList.all (fun c => c.toNat < 0x80 && c != '%') = true := by decide
    have hc := List.all_eq_true.mp hall c (List.contains_iff_mem.mp hmark)
    simpa using hc

theorem length_utf8_of_ascii {c : Char} (hc : c.toNat < 0x80) :
    (String.utf8EncodeChar c).length = 1 := by
  rw [String.length_utf8EncodeChar, Char.utf8Size_eq_one_iff, UInt32.le_iff_toNat_le]
  exact Nat.le_of_lt_succ hc

/-- With its escapes replaced, a text that was encoded is as long as its UTF-8. -/
theorem length_replaceEscapes {mark : Char} (hmark : mark.toNat < 0x10000) (text : List Char) :
    length (replaceEscapes mark (encodeURIComponent text)) = (utf8 text).length := by
  induction text with
  | nil => rfl
  | cons c text ih =>
    have hcons : encodeURIComponent (c :: text) =
        (if unreserved c then [c] else (String.utf8EncodeChar c).flatMap escape) ++
          encodeURIComponent text := rfl
    have hutf8 : (utf8 (c :: text)).length =
        (String.utf8EncodeChar c).length + (utf8 text).length := by
      simp [utf8]
    rw [hcons, hutf8, ← ih]
    by_cases h : unreserved c = true
    · obtain ⟨hascii, hpercent⟩ := unreserved_ascii h
      rw [if_pos h, List.singleton_append, replaceEscapes_cons mark hpercent,
        length_cons (by omega),
        length_utf8_of_ascii hascii]
    · rw [if_neg h, length_escapes hmark]

end AccountLogUi.Ecma
