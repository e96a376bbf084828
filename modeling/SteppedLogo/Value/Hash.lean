import SteppedLogo.Value.Equality

namespace SteppedLogo

inductive HashKey
  | nothing
  | number (n : Int)
  | notANumber (id : Identity)
  | text (s : String)
  | reference (id : Identity)
  | list (items : List HashKey)

namespace HashKey

def modulus : Nat := Decimal.twoPow 61 - 1

/-- The key of a whole number; `-1` is not used as a key. -/
def ofInt (n : Int) : HashKey :=
  let reduced : Int := (n.natAbs % modulus : Nat)
  let reduced := if n < 0 then -reduced else reduced
  number (if reduced = -1 then -2 else reduced)

/-- Modulo the prime, powers of two repeat after 61. -/
def ofFloat (x : Float) (id : Identity) : HashKey :=
  match Decimal.Binary.ofFloat x with
  | .nan => notANumber id
  | .infinite negative => number (if negative then -314159 else 314159)
  | .finite negative mantissa exponent =>
    let size : Int := (mantissa * Decimal.twoPow (exponent % 61).toNat % modulus : Nat)
    ofInt (if negative then -size else size)

/-- The empty text shares its key with zero. -/
def ofText (s : String) : HashKey := if s == "" then number 0 else text s

mutual

/-- Whether two keys agree. -/
def agrees : HashKey → HashKey → Bool
  | nothing, nothing => true
  | number a, number b => a == b
  | notANumber i, notANumber j => i == j
  | text a, text b => a == b
  | reference i, reference j => i == j
  | list xs, list ys => agreesAll xs ys
  | _, _ => false

def agreesAll : List HashKey → List HashKey → Bool
  | [], [] => true
  | x :: xs, y :: ys => agrees x y && agreesAll xs ys
  | _, _ => false

end

end HashKey

mutual

/-- The hash key of a value; a sequence has none. -/
def Value.hashKey? : Value → Option HashKey
  | .none => some .nothing
  | .bool b => some (.ofInt (boolInt b))
  | .int n _ => some (.ofInt n)
  | .float x id => some (.ofFloat x id)
  | .text s _ => some (.ofText s)
  | .list l => l.hashKeys?.map .list
  | .sequence .. => none
  | .object id _ => some (.reference id)
  | .procedure id _ => some (.reference id)

def LogoList.hashKeys? : LogoList → Option (List HashKey)
  | .cons _ head tail => do
    let key ← head.hashKey?
    let keys ← tail.hashKeys?
    return key :: keys
  | .empty => some []
  | .bare _ => some []

end

end SteppedLogo
