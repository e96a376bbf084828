
namespace SteppedLogo.Decimal

/-- The powers of the base in which doubles are kept. -/
def twoPow (n : Nat) : Nat := Nat.pow 2 n

/-- The powers of the base in which they are written. -/
def tenPow (n : Nat) : Nat := Nat.pow 10 n

/-- What a double stands for; a finite one is `± mantissa * 2 ^ exponent`. -/
inductive Binary
  | nan
  | infinite (negative : Bool)
  | finite (negative : Bool) (mantissa : Nat) (exponent : Int)
  deriving DecidableEq, Repr

def fractionBits : Nat := 52

def leastExponent : Int := -1074

namespace Binary

def ofBits (bits : Nat) : Binary :=
  let negative := bits / twoPow 63 % 2 == 1
  let biased : Nat := bits / twoPow fractionBits % twoPow 11
  let fraction := bits % twoPow fractionBits
  if biased = 2047 then if fraction = 0 then infinite negative else nan
  else if biased = 0 then finite negative fraction leastExponent
  else finite negative (twoPow fractionBits + fraction) ((biased : Int) - 1075)

def ofFloat (x : Float) : Binary := ofBits x.toBits.toNat

def signBit (negative : Bool) : Nat := if negative then twoPow 63 else 0

/-- The bits of `mantissa * 2 ^ exponent`, whose mantissa is shifted to full width first; meant
    for values that a double holds exactly. -/
def magnitudeBits (mantissa : Nat) (exponent : Int) : Nat :=
  if mantissa = 0 then 0
  else
    let target := max (exponent + Nat.log2 mantissa - fractionBits) leastExponent
    let full :=
      if target ≤ exponent then mantissa * twoPow (exponent - target).toNat
      else mantissa / twoPow (target - exponent).toNat
    if full < twoPow fractionBits then full
    else if target > 971 then 2047 * twoPow fractionBits
    else (target + 1075).toNat * twoPow fractionBits + (full - twoPow fractionBits)

def toFloat : Binary → Float
  | nan => Float.ofBits 0x7ff8000000000000
  | infinite negative => Float.ofBits (.ofNat (signBit negative + 2047 * twoPow fractionBits))
  | finite negative mantissa exponent =>
    Float.ofBits (.ofNat (signBit negative + magnitudeBits mantissa exponent))

/-- Whether a double is exactly the whole number `n`. -/
def isInt (n : Int) : Binary → Bool
  | finite negative mantissa exponent =>
    let scaled := (if negative then -1 else 1) * (mantissa : Int)
    if 0 ≤ exponent then scaled * (twoPow exponent.toNat : Int) == n
    else scaled == n * (twoPow (-exponent).toNat : Int)
  | _ => false

end Binary

/-- A nonnegative number as numerator and denominator. -/
structure Ratio where
  num : Nat
  den : Nat

/-- `mantissa * 2 ^ exponent * 10 ^ places` -/
def Ratio.scaled (mantissa : Nat) (exponent places : Int) : Ratio where
  num := mantissa * twoPow exponent.toNat * tenPow places.toNat
  den := twoPow (-exponent).toNat * tenPow (-places).toNat

/-- The nearest whole number; halfway between two, the even one. -/
def Ratio.round (r : Ratio) : Nat :=
  let down := r.num / r.den
  let rest := r.num % r.den
  if 2 * rest < r.den then down
  else if r.den < 2 * rest then down + 1
  else if down % 2 = 0 then down else down + 1

/-- The number of decimal digits of `n`, none for zero. -/
def digitCount (n : Nat) : Nat := if n = 0 then 0 else (Nat.toDigits 10 n).length

/-- The exponent of the leading decimal digit of a positive number. -/
def Ratio.magnitude (r : Ratio) : Int :=
  if r.den ≤ r.num then (digitCount (r.num / r.den) : Int) - 1
  else -(digitCount ((r.den - 1) / r.num) : Int)

end SteppedLogo.Decimal
