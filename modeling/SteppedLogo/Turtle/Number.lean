import SteppedLogo.Fault.Kind
import SteppedLogo.Decimal.Rounding
import SteppedLogo.Decimal.Reader

namespace SteppedLogo

def tooLarge : Complaint := ⟨.overflow, [.text "int too large to convert to float"]⟩

def intToFloat (n : Int) : Except Complaint Float :=
  match Decimal.ofInt? n with
  | some x => .ok x
  | none => .error tooLarge

def boolToFloat (b : Bool) : Float := if b then 1.0 else 0.0

/-- The conversion of any value to a double: numbers, truth values, and texts that spell one. -/
def toFloat : Value → Except Complaint Float
  | .bool b => .ok (boolToFloat b)
  | .int n _ => intToFloat n
  | .float x _ => .ok x
  | .text s _ =>
    match Decimal.read? s with
    | some x => .ok x
    | none => .error ⟨.value, [.text ("could not convert string to float: " ++ Text.quoted s)]⟩
  | v => .error ⟨.type,
      [.text ("float() argument must be a string or a real number, not '" ++ v.typeName ++ "'")]⟩

/-- A number in the language is no truth value. -/
def toNumber : Value → Except Complaint Float
  | .bool b => .error ⟨.type, [.text ("expected a number, got " ++ boolText b)]⟩
  | v => toFloat v

/-- A number as an operand beside a double. -/
def operand? : Value → Option (Except Complaint Float)
  | .bool b => some (.ok (boolToFloat b))
  | .int n _ => some (intToFloat n)
  | .float x _ => some (.ok x)
  | _ => none

def wrongOperands (op left right : String) : Complaint :=
  ⟨.type, [.text ("unsupported operand type(s) for " ++ op ++ ": '" ++ left ++ "' and '" ++
    right ++ "'")]⟩

def addOperand (x : Float) (v : Value) : Except Complaint Float :=
  match operand? v with
  | some y => y.map (x + ·)
  | none => .error (wrongOperands "+" "float" v.typeName)

def subOperand (x : Float) (v : Value) : Except Complaint Float :=
  match operand? v with
  | some y => y.map (x - ·)
  | none => .error (wrongOperands "-" "float" v.typeName)

/-- A factor on the left; texts and sequences are repeated by whole numbers only. -/
def mulOperand (v : Value) (x : Float) : Except Complaint Float :=
  match operand? v, v with
  | some y, _ => y.map (· * x)
  | none, .text .. | none, .sequence .. =>
    .error ⟨.type, [.text "can't multiply sequence by non-int of type 'float'"]⟩
  | none, v => .error (wrongOperands "*" v.typeName "float")

def negOperand : Value → Except Complaint Value
  | .bool b => .ok (.int (if b then -1 else 0))
  | .int n _ => .ok (.int (-n))
  | .float x _ => .ok (.float (-x))
  | v => .error ⟨.type, [.text ("bad operand type for unary -: '" ++ v.typeName ++ "'")]⟩

end SteppedLogo
