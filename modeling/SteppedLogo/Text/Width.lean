import SteppedLogo.Text.Combining
import SteppedLogo.Text.Emoji
import SteppedLogo.Text.Wide

namespace SteppedLogo.Text

def isControl (c : Char) : Bool :=
  (0 < c.toNat && c.toNat < 32) || (127 ≤ c.toNat && c.toNat < 160)

def charWidth (c : Char) : Nat :=
  if c.toNat = 0 then 0
  else if c.toNat < 127 then 1
  else if isCombining c then 0
  else if isWide c then 2
  else 1

/-- A joiner fuses the character behind it with the one before. -/
def zeroWidthJoiner : Char := '\u200d'

/-- A selector asks for the picture of the character before it. -/
def pictureSelector : Char := '\ufe0f'

/-- The columns that the picture of a character adds to it. -/
def pictureGain : Option Char → Nat
  | some c => if hasPicture c then 1 else 0
  | none => 0

/-- The columns of a text of which `width` are measured. A character behind a joiner is not
    looked at, and a selector widens `last`, the character that last took a column, once. -/
def columnsFrom? : (width : Nat) → (last : Option Char) → List Char → Option Nat
  | width, _, [] => some width
  | width, last, c :: rest =>
    if c = zeroWidthJoiner then
      match rest with
      | [] => some width
      | _ :: more => columnsFrom? width last more
    else if c = pictureSelector then columnsFrom? (width + pictureGain last) none rest
    else if isControl c then none
    else
      columnsFrom? (width + charWidth c) (if charWidth c = 0 then last else some c) rest

/-- The number of columns of a text, or `-1` when a control character is in its way. -/
def displayWidth (s : String) : Int :=
  match columnsFrom? 0 none s.toList with
  | some n => n
  | none => -1

end SteppedLogo.Text
