import SteppedLogo.Text.Word

namespace SteppedLogo.Text

/-- A sequence by its number of characters and what a terminal shows in its place. -/
structure Sequence where
  length : Nat
  shown : List Char

namespace Sequence

/-- A control sequence at the start of a text: an escape and a bracket, parameters, intermediates
    and one final character. -/
def control? : List Char → Option Sequence
  | '\x1b' :: '[' :: rest =>
    let isParameter (c : Char) : Bool := 0x30 ≤ c.toNat && c.toNat ≤ 0x3f
    let isIntermediate (c : Char) : Bool := 0x20 ≤ c.toNat && c.toNat ≤ 0x2f
    let parameters := rest.takeWhile isParameter
    let rest := rest.dropWhile isParameter
    let intermediates := rest.takeWhile isIntermediate
    match rest.dropWhile isIntermediate with
    | c :: _ =>
      if 0x40 ≤ c.toNat && c.toNat ≤ 0x7e then
        some ⟨3 + parameters.length + intermediates.length, []⟩
      else none
    | [] => none
  | _ => none

/-- A place in the parameters of a link, which are keys with values. -/
inductive Place
  | start
  | key
  | equals
  | shortValue
  | longValue
  deriving DecidableEq

/-- The place behind one more character. A colon may follow a value. Without one the end of a
    long value is the next key. -/
def Place.next? (c : Char) : Place → Option Place
  | .start => if isWordCharacter c then some .key else none
  | .key => if isWordCharacter c then some .key else if c = '=' then some .equals else none
  | .equals => if isWordCharacter c then some .shortValue else none
  | .shortValue =>
    if isWordCharacter c then some .longValue else if c = ':' then some .start else none
  | .longValue =>
    if isWordCharacter c then some .longValue
    else if c = ':' then some .start
    else if c = '=' then some .equals
    else none

def areParameters (cs : List Char) : Bool :=
  match cs.foldlM (fun place c => Place.next? c place) Place.start with
  | some place => place != .key && place != .equals
  | none => false

def linkStart : List Char := ['\x1b', ']', '8', ';']
def stringEnd : List Char := ['\x1b', '\\']
def linkEnd : List Char := ['\x1b', ']', '8', ';', ';', '\x1b', '\\']

/-- A link at the start of a text: parameters, an address and the text of the link. -/
def link? (cs : List Char) : Option Sequence := do
  let isPlain (c : Char) : Bool := c != '\x1b'
  let rest ← linkStart.isPrefixOf? cs
  let parameters := rest.takeWhile (· != ';')
  let rest := (rest.dropWhile (· != ';')).drop 1
  let address := rest.takeWhile isPlain
  let rest ← stringEnd.isPrefixOf? (rest.dropWhile isPlain)
  let text := rest.takeWhile isPlain
  let rest ← linkEnd.isPrefixOf? (rest.dropWhile isPlain)
  if areParameters parameters && !address.isEmpty && !text.isEmpty then
    some ⟨cs.length - rest.length, text⟩
  else none

def atStart? (cs : List Char) : Option Sequence := (control? cs).or (link? cs)

end Sequence

/-- What a terminal shows of a text of which the first `skip` characters are done with. -/
def shown : (skip : Nat) → List Char → List Char
  | _, [] => []
  | skip + 1, _ :: rest => shown skip rest
  | 0, c :: rest =>
    match Sequence.atStart? (c :: rest) with
    | some sequence => sequence.shown ++ shown (sequence.length - 1) rest
    | none => c :: shown 0 rest

end SteppedLogo.Text
