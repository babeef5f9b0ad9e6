import AccountLogUi.Library.Ecma
import AccountLogUi.Manager.State

/-!
# The rename sheet

`DisplayNameSheet` is the sheet a display name is typed into, with what it reads of the account's
state, and `Fmt` what it measures the text with.
-/

namespace AccountLogUi.View

/-! ### `Fmt` -/

namespace Fmt

/-- The class `movesText` tests a character against. -/
def moves (c : Char) : Bool :=
  (Ecma.codeUnits c).any (Ecma.inRanges [(0x00, 0x1F), (0x7F, 0x9F), (0x2028, 0x2028),
    (0x2029, 0x2029), (0x202A, 0x202E), (0x2066, 0x2069)])

/-- The loop of `movesText`, from character `i` on. -/
def movesFrom (i : ℕ) : List Char → ℕ
  | [] => 0
  | c :: chars => if moves c then i + 1 else movesFrom (i + 1) chars

/-- Where the text holds a character that breaks a line or turns the text around it, counted from
1, or 0 when there is none. -/
def movesText (text : String) : ℕ := movesFrom 0 text.toList

/-- The bytes a text is charged, by its escapes. -/
def utf8Bytes (text : String) : ℕ :=
  if text = "" then 0
  else Ecma.length (Ecma.replaceEscapes 'b' (Ecma.encodeURIComponent text.toList))

end Fmt

/-! ### `Store` -/

/-- The published name, or none. -/
def publishedName (state : AccountState) : String := state.displayName.getD ""

/-- The name staged, or none. -/
def stagedName (state : AccountState) : String :=
  (state.pending.find? (·.kind = "displayName")).elim "" (·.value)

/-- The name that will be in force after the next publish. -/
def displayName (state : AccountState) : String :=
  if stagedName state ≠ "" then stagedName state else publishedName state

/-! ### `DisplayNameSheet` -/

/-- The sheet, over the state on screen, with the text typed into its field. -/
structure DisplayNameSheet where
  state : AccountState
  text : String

namespace DisplayNameSheet

variable (sheet : DisplayNameSheet)

def limit : ℕ := 64

/-- The name it sends. -/
def name : String := String.ofList (Ecma.trim sheet.text.toList)

def bytes : ℕ := Fmt.utf8Bytes sheet.name

/-- A character the core refuses, since it could not be seen for what it is. -/
def moving : ℕ := Fmt.movesText sheet.text

def unchanged : Bool := sheet.name = displayName sheet.state

/-- What it quotes for the entry. -/
def cost : ℕ := sheet.state.costs.displayName + sheet.bytes

/-- Save can be pressed. -/
def confirmEnabled : Bool :=
  sheet.bytes > 0 && sheet.bytes ≤ limit && !sheet.unchanged && sheet.moving = 0

end DisplayNameSheet

end AccountLogUi.View
