import Mathlib.Tactic.Common
import Mathlib.Tactic.IntervalCases

/-!
# Hexadecimal text

`Hex.encode` writes bytes as lowercase digits, two to a byte.  `Hex.decode` and
`Hex.decodeToSlice` read the UTF-8 bytes of a text of digits of either case, and say what is wrong
with one that is not hex: its length is looked at before its characters.  `decode_encode` and
`decodeToSlice_encode` are the round trips.
-/

namespace AccountLogUi

/-- The UTF-8 bytes of a text. -/
def utf8 (text : List Char) : List UInt8 := text.flatMap String.utf8EncodeChar

namespace Hex

/-- The digit of a value below sixteen. -/
def digit (n : ℕ) : Char :=
  if n < 10 then Char.ofNat (48 + n) else Char.ofNat (87 + n)

/-- The value of a digit of either case, from its byte. -/
def value (b : UInt8) : Option ℕ :=
  if 48 ≤ b ∧ b ≤ 57 then some (b.toNat - 48)
  else if 97 ≤ b ∧ b ≤ 102 then some (b.toNat - 87)
  else if 65 ≤ b ∧ b ≤ 70 then some (b.toNat - 55)
  else none

/-- Why a text is not hex. -/
inductive FromHexError
  | invalidHexCharacter (b : UInt8)
  | oddLength
  | invalidStringLength
deriving DecidableEq, Repr

/-- The two digits of a byte, high half first. -/
def pair (b : UInt8) : List Char := [digit (b.toNat / 16), digit (b.toNat % 16)]

/-- Bytes as lowercase hex. -/
def encode (bytes : List UInt8) : List Char := bytes.flatMap pair

/-- The bytes an even number of digits spells, two at a time. -/
def digits : List UInt8 → Except FromHexError (List UInt8)
  | a :: b :: rest =>
    match value a, value b with
    | none, _ => .error (.invalidHexCharacter a)
    | _, none => .error (.invalidHexCharacter b)
    | some x, some y => (digits rest).map (UInt8.ofNat (16 * x + y) :: ·)
  | _ => .ok []

/-- The bytes a hex text spells. -/
def decode (text : List Char) : Except FromHexError (List UInt8) :=
  if (utf8 text).length % 2 = 1 then .error .oddLength else digits (utf8 text)

/-- The `size` bytes a hex text spells. -/
def decodeToSlice (size : ℕ) (text : List Char) : Except FromHexError (List UInt8) :=
  if (utf8 text).length % 2 = 1 then .error .oddLength
  else if (utf8 text).length / 2 ≠ size then .error .invalidStringLength
  else digits (utf8 text)

theorem encode_cons (b : UInt8) (bytes : List UInt8) :
    encode (b :: bytes) = pair b ++ encode bytes := rfl

theorem length_encode (bytes : List UInt8) : (encode bytes).length = 2 * bytes.length := by
  induction bytes with
  | nil => rfl
  | cons b bytes ih => rw [encode_cons, List.length_append, ih]; simp [pair]; omega

/-- Each of the sixteen digits is one byte, and reads back as its own value. -/
theorem value_digit {n : ℕ} (h : n < 16) :
    ∃ b, String.utf8EncodeChar (digit n) = [b] ∧ value b = some n := by
  interval_cases n <;> exact ⟨_, rfl, by decide⟩

/-- The digits are the sixteen lowercase ones. -/
theorem digit_mem {n : ℕ} (h : n < 16) : digit n ∈ "0123456789abcdef".toList := by
  interval_cases n <;> decide

theorem mem_encode {bytes : List UInt8} {c : Char} (h : c ∈ encode bytes) :
    c ∈ "0123456789abcdef".toList := by
  obtain ⟨b, -, hc⟩ := List.mem_flatMap.mp h
  have hb := b.toNat_lt
  simp only [pair, List.mem_cons, List.not_mem_nil, or_false] at hc
  rcases hc with rfl | rfl
  · exact digit_mem (by omega)
  · exact digit_mem (by omega)

theorem length_utf8_encode (bytes : List UInt8) :
    (utf8 (encode bytes)).length = 2 * bytes.length := by
  induction bytes with
  | nil => rfl
  | cons b bytes ih =>
    have hb := b.toNat_lt
    obtain ⟨x, hx, -⟩ := value_digit (n := b.toNat / 16) (by omega)
    obtain ⟨y, hy, -⟩ := value_digit (n := b.toNat % 16) (by omega)
    unfold utf8 at ih
    simp only [encode_cons, pair, utf8, List.flatMap_cons, List.cons_append, List.nil_append, hx,
      hy, List.length_cons, ih]
    omega

theorem digits_encode (bytes : List UInt8) : digits (utf8 (encode bytes)) = .ok bytes := by
  induction bytes with
  | nil => rfl
  | cons b bytes ih =>
    have hb := b.toNat_lt
    obtain ⟨x, hx, hvx⟩ := value_digit (n := b.toNat / 16) (by omega)
    obtain ⟨y, hy, hvy⟩ := value_digit (n := b.toNat % 16) (by omega)
    have hbyte : 16 * (b.toNat / 16) + b.toNat % 16 = b.toNat := by omega
    unfold utf8 at ih
    simp only [encode_cons, pair, utf8, List.flatMap_cons, List.cons_append, List.nil_append, hx,
      hy, digits, hvx, hvy, ih, Except.map, hbyte, UInt8.ofNat_toNat]

/-- What is written reads back. -/
theorem decode_encode (bytes : List UInt8) : decode (encode bytes) = .ok bytes := by
  rw [decode, if_neg (by rw [length_utf8_encode]; omega), digits_encode]

/-- What is written reads back into a slice of its own length. -/
theorem decodeToSlice_encode (bytes : List UInt8) :
    decodeToSlice bytes.length (encode bytes) = .ok bytes := by
  rw [decodeToSlice, length_utf8_encode, if_neg (by omega), if_neg (by omega), digits_encode]

end Hex

end AccountLogUi
