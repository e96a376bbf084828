import SteppedLogo.Decimal.Binary

namespace SteppedLogo.Decimal

/-- `digits * 10 ^ exponent` -/
structure Digits where
  digits : Nat
  exponent : Int
  deriving DecidableEq, Repr

/-- Removes zeros at the end of the digits, at most `fuel` of them. -/
def Digits.normalize : (fuel : Nat) → Digits → Digits
  | 0, d => d
  | fuel + 1, d =>
    if d.digits ≠ 0 ∧ d.digits % 10 = 0 then
      normalize fuel ⟨d.digits / 10, d.exponent + 1⟩
    else d

/-- The numbers that round to `mantissa * 2 ^ exponent`, in quarters of `2 ^ exponent`: the
    lower gap is half as wide at a power of two, and the ends belong to an even mantissa. -/
structure Neighbourhood where
  low : Nat
  middle : Nat
  high : Nat
  closed : Bool

def Neighbourhood.of (mantissa : Nat) (exponent : Int) : Neighbourhood where
  low := 4 * mantissa - (if mantissa = twoPow fractionBits ∧ leastExponent < exponent then 1 else 2)
  middle := 4 * mantissa
  high := 4 * mantissa + 2
  closed := mantissa % 2 == 0

/-- Whether the grid point `digits`, both sides brought to one scale, lies in the neighbourhood. -/
def Neighbourhood.holds (n : Neighbourhood) (grid : Ratio) (digits : Nat) : Bool :=
  let point := digits * grid.den
  if n.closed then n.low * grid.num ≤ point && point ≤ n.high * grid.num
  else n.low * grid.num < point && point < n.high * grid.num

/-- Of the two grid points around the value the one inside the neighbourhood; the nearer one if
    both are, and the even one of two equally near. -/
def Neighbourhood.onGrid (n : Neighbourhood) (grid : Ratio) : Option Nat :=
  let value := n.middle * grid.num
  let down := value / grid.den
  let below := value - down * grid.den
  let above := (down + 1) * grid.den - value
  match n.holds grid down, n.holds grid (down + 1) with
  | true, true =>
    if below < above then some down
    else if above < below then some (down + 1)
    else if down % 2 = 0 then some down else some (down + 1)
  | true, false => some down
  | false, true => some (down + 1)
  | false, false => none

/-- Tries the grids of `count`, `count + 1`, … digits. -/
def shortestFrom (mantissa : Nat) (exponent leading : Int) : (fuel count : Nat) → Digits
  | 0, _ => ⟨0, 0⟩
  | fuel + 1, count =>
    let unit := leading + 1 - count
    match (Neighbourhood.of mantissa exponent).onGrid (.scaled 1 (exponent - 2) (-unit)) with
    | some digits => ⟨digits, unit⟩
    | none => shortestFrom mantissa exponent leading fuel (count + 1)

/-- Seventeen digits always suffice. -/
def shortest (mantissa : Nat) (exponent : Int) : Digits :=
  if mantissa = 0 then ⟨0, 0⟩
  else
    let leading := (Ratio.scaled mantissa exponent 0).magnitude
    (shortestFrom mantissa exponent leading 17 1).normalize 17

/-- The nearest decimal of `count` significant digits, without zeros at its end. -/
def significant (count mantissa : Nat) (exponent : Int) : Digits :=
  if mantissa = 0 then ⟨0, 0⟩
  else
    let leading := (Ratio.scaled mantissa exponent 0).magnitude
    let unit := leading + 1 - count
    Digits.normalize (count + 1) ⟨(Ratio.scaled mantissa exponent (-unit)).round, unit⟩

end SteppedLogo.Decimal
