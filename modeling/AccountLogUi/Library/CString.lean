import Mathlib.Data.List.TakeWhile
import Mathlib.Tactic.Common

/-!
# Text as a C string

A C string is the bytes before its first zero.  `cString` is what one is made of from a text, and
`ofCString` what a reader that takes only UTF-8 reads of one: by `ofCString_cString` that is the
text up to its first NUL, since no other character's encoding holds a zero byte.
-/

namespace AccountLogUi

/-- The bytes of a text, as far as one who stops at a zero byte sees them. -/
def cString (text : String) : List UInt8 :=
  (text.toList.flatMap String.utf8EncodeChar).takeWhile (· ≠ 0)

/-- What a C string spells, where it is UTF-8. -/
def ofCString (bytes : List UInt8) : Option String := String.fromUTF8? bytes.toByteArray

/-- A text up to its first NUL. -/
def beforeNul (text : String) : String :=
  String.ofList (text.toList.takeWhile (· ≠ Char.ofNat 0))

theorem beforeNul_eq {text : String} (h : Char.ofNat 0 ∉ text.toList) : beforeNul text = text := by
  unfold beforeNul
  have hall : ∀ c ∈ text.toList, decide (c ≠ Char.ofNat 0) = true :=
    fun c hc => decide_eq_true fun heq => h (heq ▸ hc)
  rw [List.takeWhile_eq_self_iff.mpr hall, String.ofList_toList]

/-- A byte below 256 is zero only as zero. -/
theorem ofNat_ne_zero {n : ℕ} (hpos : 0 < n) (hlt : n < 256) : UInt8.ofNat n ≠ 0 := by
  intro h
  have hn : n % 256 = 0 := congrArg UInt8.toNat h
  omega

/-- Only NUL's encoding holds a zero byte. -/
theorem utf8EncodeChar_ne_zero {c : Char} (hc : c ≠ Char.ofNat 0) :
    ∀ byte ∈ String.utf8EncodeChar c, byte ≠ 0 := by
  have hpos : 0 < c.val.toNat := by
    rw [Nat.pos_iff_ne_zero]
    intro hzero
    refine hc (Char.ext ?_)
    exact UInt32.toNat_inj.mp hzero
  intro byte hbyte
  unfold String.utf8EncodeChar at hbyte
  dsimp only at hbyte
  split at hbyte
  · rw [List.mem_singleton.mp hbyte]
    exact ofNat_ne_zero hpos (by omega)
  -- Every byte of a longer encoding has its top bit set.
  have hrest : ∃ n m, byte = UInt8.ofNat (n + m) ∧ 0 < m ∧ n + m < 256 := by
    split at hbyte
    · simp only [List.mem_cons, List.not_mem_nil, or_false] at hbyte
      rcases hbyte with rfl | rfl
      · exact ⟨_, _, rfl, by omega, by omega⟩
      · exact ⟨_, _, rfl, by omega, by omega⟩
    split at hbyte
    · simp only [List.mem_cons, List.not_mem_nil, or_false] at hbyte
      rcases hbyte with rfl | rfl | rfl
      · exact ⟨_, _, rfl, by omega, by omega⟩
      · exact ⟨_, _, rfl, by omega, by omega⟩
      · exact ⟨_, _, rfl, by omega, by omega⟩
    · simp only [List.mem_cons, List.not_mem_nil, or_false] at hbyte
      rcases hbyte with rfl | rfl | rfl | rfl
      · exact ⟨_, _, rfl, by omega, by omega⟩
      · exact ⟨_, _, rfl, by omega, by omega⟩
      · exact ⟨_, _, rfl, by omega, by omega⟩
      · exact ⟨_, _, rfl, by omega, by omega⟩
  obtain ⟨n, m, rfl, hm, hlt⟩ := hrest
  exact ofNat_ne_zero (by omega) hlt

/-- To stop at a zero byte is to stop at a NUL. -/
theorem takeWhile_flatMap_utf8EncodeChar (chars : List Char) :
    (chars.flatMap String.utf8EncodeChar).takeWhile (· ≠ 0) =
      (chars.takeWhile (· ≠ Char.ofNat 0)).flatMap String.utf8EncodeChar := by
  induction chars with
  | nil => rfl
  | cons c chars ih =>
    by_cases hc : c = Char.ofNat 0
    · subst hc
      have hnul : String.utf8EncodeChar (Char.ofNat 0) = [0] := by decide
      simp [hnul]
    · have hbytes : ∀ byte ∈ String.utf8EncodeChar c, decide (byte ≠ 0) = true :=
        fun byte hbyte => decide_eq_true (utf8EncodeChar_ne_zero hc byte hbyte)
      rw [List.flatMap_cons, List.takeWhile_append_of_pos hbytes, ih, List.takeWhile_cons,
        if_pos (decide_eq_true hc), List.flatMap_cons]

/-- A text read back is the text up to its first NUL. -/
@[simp] theorem ofCString_cString (text : String) :
    ofCString (cString text) = some (beforeNul text) := by
  have hbytes : (cString text).toByteArray = (beforeNul text).toByteArray := by
    unfold cString beforeNul
    rw [takeWhile_flatMap_utf8EncodeChar, String.toByteArray_ofList]
    rfl
  unfold ofCString String.fromUTF8?
  rw [hbytes, dif_pos (String.isValidUTF8 _)]
  rfl

end AccountLogUi
