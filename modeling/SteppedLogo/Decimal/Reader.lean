import SteppedLogo.Decimal.Binary
import SteppedLogo.Text.Blank
import SteppedLogo.Text.Digit

namespace SteppedLogo.Decimal

open SteppedLogo.Text

/-- Blanks around a number: the ASCII ones without the information separators, and all others. -/
def isPadding (c : Char) : Bool :=
  if c.toNat < 127 then c == ' ' || (9 ≤ c.toNat && c.toNat ≤ 13) else isBlank c

/-- Digits of any script become ASCII digits. -/
def asciiDigit (c : Char) : Char :=
  if c.toNat < 127 then c
  else match digitValue? c with
    | some v => Char.ofNat ('0'.toNat + v)
    | none => c

def trimPadding (cs : List Char) : List Char :=
  ((cs.dropWhile isPadding).reverse.dropWhile isPadding).reverse

/-- Drops the underscores of a text, each of which has to stand between two digits. -/
def dropUnderscores (before : Char) : List Char → Option (List Char)
  | [] => some []
  | '_' :: rest =>
    if before.isDigit && (rest.head?.any (·.isDigit)) then dropUnderscores '_' rest else none
  | c :: rest => (dropUnderscores c rest).map (c :: ·)

def lower (cs : List Char) : List Char := cs.map Char.toLower

def numberOf (ds : List Char) : Nat := ds.foldl (fun n d => 10 * n + (d.toNat - '0'.toNat)) 0

/-- An optional sign, and the rest. -/
def readSign : List Char → Bool × List Char
  | '-' :: rest => (true, rest)
  | '+' :: rest => (false, rest)
  | rest => (false, rest)

def readDigits (cs : List Char) : List Char × List Char :=
  (cs.takeWhile Char.isDigit, cs.dropWhile Char.isDigit)

/-- The exponent part, which has to be the end of the text. -/
def readExponent : List Char → Option Int
  | [] => some 0
  | e :: rest =>
    if e = 'e' || e = 'E' then
      let (negative, rest) := readSign rest
      let (ds, rest) := readDigits rest
      if ds.isEmpty || !rest.isEmpty then none
      else some (if negative then -(numberOf ds : Int) else numberOf ds)
    else none

/-- The double nearest to `mantissa * 10 ^ exponent`; beyond the range of doubles the power is
    not worked out. -/
def nearest (mantissa : Nat) (exponent : Int) : Float :=
  let size := (digitCount mantissa : Int) + exponent
  if mantissa = 0 ∨ size < -330 then 0.0
  else if 310 < size then Binary.toFloat (.infinite false)
  else Float.ofScientific mantissa (exponent < 0) exponent.natAbs

def readFinite (cs : List Char) : Option Float :=
  let (whole, rest) := readDigits cs
  let (fraction, rest) :=
    match rest with
    | '.' :: rest => readDigits rest
    | rest => ([], rest)
  if whole.isEmpty && fraction.isEmpty then none
  else (readExponent rest).map fun e => nearest (numberOf (whole ++ fraction)) (e - fraction.length)

def readMagnitude (cs : List Char) : Option Float :=
  let word := String.ofList (lower cs)
  if word == "inf" || word == "infinity" then some (Binary.toFloat (.infinite false))
  else if word == "nan" then some (Binary.toFloat .nan)
  else readFinite cs

/-- The double that a text spells, if it spells one. -/
def read? (s : String) : Option Float := do
  let cs ← dropUnderscores ' ' ((trimPadding s.toList).map asciiDigit)
  let (negative, rest) := readSign cs
  let x ← readMagnitude rest
  return if negative then -x else x

end SteppedLogo.Decimal
