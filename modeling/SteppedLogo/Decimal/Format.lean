import SteppedLogo.Decimal.Shortest

namespace SteppedLogo.Decimal

/-- How digits are laid out: positional for leading exponents from `lowest` to `highest`, with a
    point and a zero after a whole number if `pointZero`; in scientific notation otherwise. -/
structure Layout where
  lowest : Int
  highest : Int
  pointZero : Bool

/-- Exponents have a sign and at least two digits. -/
def exponentText (e : Int) : List Char :=
  let ds := Nat.toDigits 10 e.natAbs
  (if e < 0 then '-' else '+') :: (if ds.length < 2 then '0' :: ds else ds)

def scientific (ds : List Char) (leading : Int) : List Char :=
  match ds with
  | [] => []
  | [d] => d :: 'e' :: exponentText leading
  | d :: rest => d :: '.' :: rest ++ 'e' :: exponentText leading

def positional (layout : Layout) (ds : List Char) (leading : Int) : List Char :=
  let point := leading + 1
  if point ≤ 0 then '0' :: '.' :: List.replicate (-point).toNat '0' ++ ds
  else if (ds.length : Int) ≤ point then
    ds ++ List.replicate (point.toNat - ds.length) '0' ++
      (if layout.pointZero then ['.', '0'] else [])
  else ds.take point.toNat ++ '.' :: ds.drop point.toNat

def Layout.write (layout : Layout) (d : Digits) : List Char :=
  let ds := Nat.toDigits 10 d.digits
  let leading := if d.digits = 0 then 0 else (ds.length : Int) - 1 + d.exponent
  if leading < layout.lowest ∨ layout.highest < leading then scientific ds leading
  else positional layout ds leading

def signed (negative : Bool) (cs : List Char) : String :=
  String.ofList (if negative then '-' :: cs else cs)

/-- A double's text by `write`, which sees its mantissa and exponent. -/
def textBy (write : Nat → Int → List Char) (x : Float) : String :=
  match Binary.ofFloat x with
  | .nan => "nan"
  | .infinite negative => signed negative ['i', 'n', 'f']
  | .finite negative mantissa exponent => signed negative (write mantissa exponent)

def readBack : Layout := { lowest := -4, highest := 15, pointZero := true }

def general : Layout := { lowest := -4, highest := 5, pointZero := false }

/-- The shortest text that reads back as the same double. -/
def shortestText (x : Float) : String :=
  textBy (fun mantissa exponent => readBack.write (shortest mantissa exponent)) x

/-- Six significant digits, without zeros at their end. -/
def generalText (x : Float) : String :=
  textBy (fun mantissa exponent => general.write (significant 6 mantissa exponent)) x

/-- Exactly `places` digits behind the point. -/
def fixedText (places : Nat) (x : Float) : String :=
  textBy (fun mantissa exponent =>
    let ds := Nat.toDigits 10 (Ratio.scaled mantissa exponent places).round
    let ds := List.replicate (places + 1 - ds.length) '0' ++ ds
    ds.take (ds.length - places) ++ '.' :: ds.drop (ds.length - places)) x

end SteppedLogo.Decimal
