import SteppedLogo.Value.Basic
import SteppedLogo.Decimal.Binary

namespace SteppedLogo

def boolInt (b : Bool) : Int := if b then 1 else 0

/-- Whether a whole number and a double are the same number. -/
def intEqFloat (n : Int) (x : Float) : Bool := (Decimal.Binary.ofFloat x).isInt n

mutual

def Value.equal : Value → Value → Bool
  | .none, .none => true
  | .bool a, .bool b => a == b
  | .bool a, .int b _ => boolInt a == b
  | .bool a, .float y _ => intEqFloat (boolInt a) y
  | .int a _, .bool b => a == boolInt b
  | .int a _, .int b _ => a == b
  | .int a _, .float y _ => intEqFloat a y
  | .float x _, .bool b => intEqFloat (boolInt b) x
  | .float x _, .int b _ => intEqFloat b x
  | .float x _, .float y _ => x == y
  | .text a _, .text b _ => a == b
  | .list a, .list b => a.equal b
  | .sequence i xs, .sequence j ys => i == j || equalItems xs ys
  | .object i _, .object j _ => i == j
  | .procedure i _, .procedure j _ => i == j
  | _, _ => false

/-- Lists are equal when their items are and both end in the empty list. -/
def LogoList.equal : LogoList → LogoList → Bool
  | .empty, .empty => true
  | .cons _ a s, .cons _ b t => a.equal b && s.equal t
  | _, _ => false

/-- The items of sequences are equal also when they are the same object. -/
def equalItems : List Value → List Value → Bool
  | [], [] => true
  | x :: xs, y :: ys => (x.same y || x.equal y) && equalItems xs ys
  | _, _ => false

end

end SteppedLogo
