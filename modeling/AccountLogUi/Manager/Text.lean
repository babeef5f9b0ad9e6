import AccountLogUi.Crates
import AccountLogUi.Library.Hex
import AccountLogUi.Observed.Basic
import AccountLogUi.Vault.Basic
import Mathlib.Data.List.DropRight

/-!
# What the app is given to type in

Display names, installation keys and account secrets, as text, with everything they are refused
for.
-/

namespace AccountLogUi

inductive CoreError (Addr : Type)
  | vault (error : VaultError Addr)
  | account (error : AccountError)
  | log (error : AccountLogError)
  | store (error : StoreError)
  | observed (error : ObservedError)
  | address
  | unknown
  | notManaged
  | locked
  | alreadyManaged
  | argument
  | key (why : String)
  | emptyDisplayName
  | displayNameCharacters
  | displayNameTooLong (size : ℕ)
  | nameUnchanged
  | installationLive
  | alreadyStaged
  | overBudget
  | notRevocable (index : ℕ)
  | nothingStaged
  | unreadable
deriving DecidableEq

namespace Manager

/-- `MAX_DISPLAY_NAME_BYTES`. -/
def maxDisplayNameBytes : ℕ := 64

/-- The character is in one of the ranges. -/
def within (ranges : List (ℕ × ℕ)) (c : Char) : Bool :=
  ranges.any fun range => range.1 ≤ c.toNat && c.toNat ≤ range.2

/-- `char::is_whitespace`. -/
def isWhitespace : Char → Bool :=
  within [(0x09, 0x0D), (0x20, 0x20), (0x85, 0x85), (0xA0, 0xA0), (0x1680, 0x1680),
    (0x2000, 0x200A), (0x2028, 0x2029), (0x202F, 0x202F), (0x205F, 0x205F), (0x3000, 0x3000)]

/-- `char::is_control`. -/
def isControl : Char → Bool := within [(0x00, 0x1F), (0x7F, 0x9F)]

/-- `str::trim`. -/
def trim (text : String) : String :=
  String.ofList ((text.toList.dropWhile isWhitespace).rdropWhile isWhitespace)

/-- A character that breaks a line or turns the text around it. -/
def movesText (c : Char) : Bool :=
  isControl c || within [(0x2028, 0x2028), (0x2029, 0x2029), (0x202A, 0x202E), (0x2066, 0x2069)] c

/-- A character that draws nothing. -/
def invisible : Char → Bool :=
  within [(0x00AD, 0x00AD), (0x034F, 0x034F), (0x061C, 0x061C), (0x115F, 0x1160),
    (0x17B4, 0x17B5), (0x180B, 0x180F), (0x200B, 0x200F), (0x202A, 0x202E), (0x2060, 0x206F),
    (0x3164, 0x3164), (0xFE00, 0xFE0F), (0xFEFF, 0xFEFF), (0xFFA0, 0xFFA0), (0xFFF0, 0xFFF8),
    (0x1BCA0, 0x1BCA3), (0x1D173, 0x1D17A), (0xE0000, 0xE0FFF),
    -- The braille blank and the interlinear annotation marks.
    (0x2800, 0x2800), (0xFFF9, 0xFFFB)]

variable {Addr : Type}

/-- The name as it will be published: trimmed, and refused when it would render as nothing, break a
line, or turn the text around it. -/
def displayName (name : String) : Except (CoreError Addr) String :=
  let name := trim name
  if name.toList.any movesText then .error .displayNameCharacters
  else if name.toList.all fun c => isWhitespace c || invisible c then .error .emptyDisplayName
  else if name.utf8ByteSize > maxDisplayNameBytes then
    .error (.displayNameTooLong name.utf8ByteSize)
  else .ok name

/-- The installation key a text spells. -/
def parseInstallationKey (C : Crates Addr) (keyHex : String) :
    Except (CoreError Addr) Ed25519VerifyingKey :=
  match Hex.decode (trim keyHex).toList with
  | .error _ => .error (.key "an installation key is 64 hex characters")
  | .ok bytes =>
    if h : bytes.length = 32 then
      match C.fromCanonicalBytes ⟨bytes, h⟩ with
      | some key => .ok key
      | none => .error (.key "those 32 bytes are not a valid Ed25519 public key")
    else .error (.key ("an installation key is 32 bytes, this is " ++ toString bytes.length))

/-- The account key a text spells. -/
def parseAccountKey (secretHex : String) : Except (CoreError Addr) Ed25519SigningKey :=
  let secretHex := trim secretHex
  match Hex.decodeToSlice 32 secretHex.toList with
  | .ok secret =>
    match Vault.toKey secret with
    | some key => .ok key
    | none => .error (.key "an account key is 32 bytes")
  | .error (.invalidHexCharacter _) => .error (.key "an account key holds only 0-9 and a-f")
  | .error _ => .error (.key ("an account key is 64 hex characters, this is " ++
      toString secretHex.utf8ByteSize))

/-- The account address a text spells. -/
def parseAddress (C : Crates Addr) (address : String) : Except (CoreError Addr) Addr :=
  match C.parseAddr (trim address).toList with
  | some addr => .ok addr
  | none => .error .address

/-- A name accepted is not blank. -/
theorem displayName_ok {name name' : String}
    (h : (displayName name : Except (CoreError Addr) String) = .ok name') :
    name' = trim name ∧ name'.utf8ByteSize ≤ 64 ∧ name' ≠ "" := by
  dsimp only [displayName] at h
  split at h
  · cases h
  split at h
  · cases h
  · next hshows =>
    split at h
    · cases h
    · next hsize =>
      cases h
      refine ⟨rfl, not_lt.mp hsize, fun hempty => hshows ?_⟩
      rw [hempty]
      rfl

end Manager

end AccountLogUi
