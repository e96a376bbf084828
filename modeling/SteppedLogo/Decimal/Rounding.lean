import SteppedLogo.Decimal.Binary

namespace SteppedLogo.Decimal

/-- The double nearest to the exact value of `x` rounded to `places` decimal places, a half going
    to the even last digit. -/
def roundPlaces (places : Nat) (x : Float) : Float :=
  match Binary.ofFloat x with
  | .finite negative mantissa exponent =>
    if 0 ≤ exponent then x
    else
      let r := Float.ofScientific (Ratio.scaled mantissa exponent places).round true places
      if negative then -r else r
  | _ => x

/-- The remainder of `mantissa * 2 ^ exponent` by `divisor`, with its exponent. -/
def remainder (divisor mantissa : Nat) (exponent : Int) : Nat × Int :=
  if 0 ≤ exponent then (mantissa * twoPow exponent.toNat % divisor, 0)
  else (mantissa % (divisor * twoPow (-exponent).toNat), exponent)

/-- The remainder of a division by a positive whole number that rounds down. It is exact for a
    positive `x`; for a negative one the remainder of its magnitude is taken from the divisor, so
    that the result may round up to the divisor itself. -/
def floorMod (x : Float) (divisor : Nat) : Float :=
  match Binary.ofFloat x with
  | .finite negative mantissa exponent =>
    let (rest, exponent) := remainder divisor mantissa exponent
    if rest = 0 then 0.0
    else
      let r := Binary.toFloat (.finite negative rest exponent)
      if negative then r + Float.ofNat divisor else r
  | _ => Binary.toFloat .nan

/-- The nearest double, unless the number lies beyond the largest one. -/
def ofInt? (n : Int) : Option Float :=
  let x := Float.ofScientific n.natAbs false 0
  if x.isInf then none else some (if n < 0 then -x else x)

end SteppedLogo.Decimal
