import SteppedLogo.World.Perform

namespace SteppedLogo

namespace Turtle

def setHeading (t : Turtle) (degrees : Float) : Turtle :=
  { t with heading := Decimal.floorMod degrees 360 }

def moveTo (t : Turtle) (x y : Float) : Turtle :=
  let target : Point := ⟨.real (snap x), .real (snap y)⟩
  { t with
    position := target
    segments :=
      if t.penDown then t.segments.push ⟨t.position, target, t.penColor⟩ else t.segments }

def advance (t : Turtle) (distance : Float → Except Complaint Float) : Except Complaint Turtle := do
  let angle := radians t.heading
  let x := (← distance angle.sin) + (← t.position.x.toFloat)
  let y := (← distance angle.cos) + (← t.position.y.toFloat)
  return t.moveTo x y

def forward (t : Turtle) (distance : Float) : Except Complaint Turtle :=
  t.advance fun s => .ok (distance * s)

def back (t : Turtle) (distance : Float) : Except Complaint Turtle := t.forward (-distance)

def right (t : Turtle) (degrees : Float) : Turtle := t.setHeading (t.heading + degrees)

def left (t : Turtle) (degrees : Float) : Turtle := t.setHeading (t.heading - degrees)

def up (t : Turtle) : Turtle := { t with penDown := false }

def down (t : Turtle) : Turtle := { t with penDown := true }

def setColor (t : Turtle) (color : Value) : Turtle := { t with penColor := color }

def clearScreen (t : Turtle) : Turtle :=
  { t with position := ⟨.real 0.0, .real 0.0⟩, heading := 0.0, segments := #[] }

end Turtle

namespace TurtleM

variable {t : Turtle}

/-- A method comes to a turtle, or to a refusal; refused, it has left the turtle as it was. -/
def ComesTo (method : TurtleM Unit) (t : Turtle) (outcome : Except Complaint Turtle) : Prop :=
  method.run.run t = match outcome with
    | .ok u => (.ok (), u)
    | .error c => (.error c, t)

theorem ComesTo.of_get {f : Turtle → TurtleM Unit} {outcome : Except Complaint Turtle} (h : (f t).ComesTo t outcome) :
    (get >>= f).ComesTo t outcome := h

/-- Nothing has been assigned where an operand is refused. -/
theorem ComesTo.of_lift {α : Type} (x : Except Complaint α) {f : α → TurtleM Unit} {g : α → Except Complaint Turtle}
    (h : ∀ a, (f a).ComesTo t (g a)) : (liftM x >>= f).ComesTo t (x >>= g) := by
  cases x with
  | error c => rfl
  | ok a => exact h a

/-- The segment is drawn from where the turtle still is; then both coordinates are set. -/
theorem moveTo_comesTo (x y : Float) : (moveTo x y).ComesTo t (.ok (t.moveTo x y)) := by
  obtain ⟨position, _ | _, penColor, segments, heading⟩ := t <;> rfl

/-- The four operands are found before the first assignment. -/
theorem advance_comesTo (distance : Float → Except Complaint Float) :
    (advance distance).ComesTo t (t.advance distance) :=
  .of_get <| .of_lift _ fun _ => .of_lift _ fun _ => .of_lift _ fun _ => .of_lift _ fun _ => moveTo_comesTo _ _

theorem forward_comesTo (distance : Float) : (forward distance).ComesTo t (t.forward distance) := advance_comesTo _

theorem back_comesTo (distance : Float) : (back distance).ComesTo t (t.back distance) := forward_comesTo _

end TurtleM

/-- Arguments that do not fit are a fault of type, whatever is wrong with them. -/
theorem Signature.kind_of_fault {s : Signature} {args : Arguments} {c : Complaint} (h : s.fault? args = some c) :
    c.kind = .type := by
  obtain h | ⟨-, h⟩ := Option.or_eq_some_iff.1 h
  · obtain h | ⟨-, h⟩ := Option.or_eq_some_iff.1 h
    · obtain ⟨before, entry, after, -, h, -⟩ := List.findSome?_eq_some_iff.1 h
      dsimp only at h
      split at h
      · split at h <;> cases h
        rfl
      · split at h <;> cases h
        rfl
    · unfold countFault? at h
      dsimp only at h
      split at h <;> cases h
      rfl
  · unfold missingFault? at h
    split at h <;> cases h
    rfl

@[simp]
theorem Signature.misfit_kind (s : Signature) (args : List Value) : (s.misfit args).kind = .type := by
  unfold misfit
  cases h : s.fault? { positional := args } with
  | none => rfl
  | some c => exact kind_of_fault h

/-- What a call leaves behind: the turtle, a reported value, and a line to print. -/
structure Effect where
  turtle : Turtle
  result : Value := .none
  line : Option String := none

/-- What the call of a word comes to; a list that it reports takes its identities from `fresh` on. -/
def Primitive.call (fresh : Identity) (t : Turtle) :
    Primitive → List Value → Except Complaint Effect
  | print, args => .ok { turtle := t, line := some (" ".intercalate (args.map Value.display)) }
  | clearScreen, [] => .ok { turtle := t.clearScreen }
  | xcor, [] => .ok { turtle := t, result := t.position.x.value }
  | ycor, [] => .ok { turtle := t, result := t.position.y.value }
  | pos, [] =>
    .ok { turtle := t, result := .list (.ofList fresh [t.position.x.value, t.position.y.value]) }
  | setpos, [v] => do
    let (x, y) ← toPair v
    return { turtle := t.moveTo x y }
  | heading, [] => .ok { turtle := t, result := .float t.heading }
  | seth, [v] => return { turtle := t.setHeading (← toNumber v) }
  | forward, [v] => do return { turtle := ← t.forward (← toNumber v) }
  | back, [v] => do return { turtle := ← t.back (← toNumber v) }
  | right, [v] => return { turtle := t.right (← toNumber v) }
  | left, [v] => return { turtle := t.left (← toNumber v) }
  | up, [] => .ok { turtle := t.up }
  | down, [] => .ok { turtle := t.down }
  | color, [v] => .ok { turtle := t.setColor (.text v.display) }
  | p, args => .error (p.signature.misfit args)

/-- A computation that gives a value has gone on with a value. -/
theorem ok_of_bind {α β : Type} {x : Except Complaint α} {f : α → Except Complaint β} {b : β}
    (h : x >>= f = .ok b) : ∃ a, x = .ok a ∧ f a = .ok b := by
  cases x with
  | error c => cases h
  | ok a => exact ⟨a, rfl, h⟩

/-- Only `print` prints a line, with the values that it is given. -/
theorem Primitive.line_of_call {p : Primitive} {fresh : Identity} {t : Turtle} {args : List Value} {e : Effect}
    (h : p.call fresh t args = .ok e) :
    e.line = if p = .print then some (" ".intercalate (args.map Value.display)) else none := by
  by_cases hprint : p = .print
  · subst hprint
    cases h
    rfl
  · rw [if_neg hprint]
    unfold Primitive.call at h
    split at h
    case h_1 => exact absurd rfl hprint
    case h_9 | h_10 =>
      obtain ⟨x, -, hmoved⟩ := ok_of_bind h
      obtain ⟨u, -, hdone⟩ := ok_of_bind hmoved
      cases hdone
      rfl
    case h_6 | h_8 | h_11 | h_12 =>
      obtain ⟨x, -, hdone⟩ := ok_of_bind h
      cases hdone
      rfl
    all_goals cases h
    all_goals rfl

namespace World

/-- The turtle and the line of a call. -/
def leave (w : World) (e : Effect) : World :=
  match e.line with
  | some text => { w with turtle := e.turtle }.print "output" text
  | none => { w with turtle := e.turtle }

/-- What a call leaves behind. -/
def carryOut (w : World) (e : Effect) : World :=
  let w := { w with turtle := e.turtle, fresh := w.fresh + 2 }
  match e.line with
  | some text => w.print "output" text
  | none => w

theorem carryOut_eq_leave (w : World) (e : Effect) : w.carryOut e = { w.leave e with fresh := (w.leave e).fresh + 2 } := by
  unfold carryOut leave
  cases e.line with
  | none => rfl
  | some text =>
    simp only [print]
    split <;> rfl

/-- Printing leaves the sink as it is, and only writes. -/
theorem print_frame (w : World) (category text : String) :
    ∃ calls records log, w.print category text = { w with output := { w.output with calls, records }, log } := by
  unfold print
  dsimp only
  split <;> exact ⟨_, _, _, rfl⟩

/-- A call changes the turtle, and writes. -/
theorem carryOut_frame (w : World) (e : Effect) : ∃ fresh calls records log,
    w.carryOut e = { w with turtle := e.turtle, fresh, output := { w.output with calls, records }, log } := by
  unfold carryOut
  cases e.line with
  | none => exact ⟨_, _, _, _, rfl⟩
  | some text =>
    obtain ⟨calls, records, log, heq⟩ := print_frame { w with turtle := e.turtle, fresh := w.fresh + 2 } "output" text
    exact ⟨_, calls, records, log, heq⟩

end World

namespace WordM

variable {w : World}

/-- A word comes to an effect, or to a refusal; refused, it has left everything as it was. -/
def ComesTo (word : WordM Value) (w : World) (outcome : Except Complaint Effect) : Prop :=
  word.run.run w = match outcome with
    | .ok e => (.ok e.result, w.leave e)
    | .error c => (.error c, w)

/-- Nothing has been done where an input is refused. -/
theorem ComesTo.of_lift {α : Type} (x : Except Complaint α) {f : α → WordM Value} {g : α → Except Complaint Effect}
    (h : ∀ a, (f a).ComesTo w (g a)) : (liftM x >>= f).ComesTo w (x >>= g) := by
  cases x with
  | error c => rfl
  | ok a => exact h a

theorem onTurtle_run {α : Type} (method : TurtleM α) (w : World) : (onTurtle method).run.run w =
    ((method.run.run w.turtle).1, { w with turtle := (method.run.run w.turtle).2 }) := rfl

theorem ComesTo.of_method {method : TurtleM Unit} {outcome : Except Complaint Turtle}
    (h : method.ComesTo w.turtle outcome) :
    ComesTo (do onTurtle method; return .none) w (do return { turtle := ← outcome }) := by
  have hrun := onTurtle_run method w
  rw [h] at hrun
  simp only [ComesTo, ExceptT.run_bind, StateT.run_bind, hrun]
  cases outcome <;> rfl

end WordM

/-- The steps of a word come to what its call does. -/
theorem Primitive.body_comesTo (p : Primitive) (args : List Value) (w : World) :
    (p.body args).ComesTo w (p.call w.fresh w.turtle args) := by
  cases p <;> obtain _ | ⟨v, _ | ⟨v', args⟩⟩ := args
  -- only the words that convert an input can fail on their way
  case setpos.cons.nil => exact .of_lift _ fun _ => .of_method (TurtleM.moveTo_comesTo _ _)
  case forward.cons.nil => exact .of_lift _ fun x => .of_method (TurtleM.forward_comesTo x)
  case back.cons.nil => exact .of_lift _ fun x => .of_method (TurtleM.back_comesTo x)
  case seth.cons.nil | right.cons.nil | left.cons.nil => exact .of_lift _ fun x => rfl
  all_goals rfl

namespace World

theorem callPrimitive_eq (p : Primitive) (args : List Value) (w : World) :
    w.callPrimitive p args = match p.call w.fresh w.turtle args with
      | .error c => w.complain c
      | .ok e => (.ok e.result, w.carryOut e) := by
  rw [callPrimitive, p.body_comesTo args w]
  cases p.call w.fresh w.turtle args with
  | error c => rfl
  | ok e => simp only [carryOut_eq_leave]

/-- A word of the table has no part in the loop, the gate, the session and the trace. -/
theorem callPrimitive_frame (p : Primitive) (args : List Value) (w : World) : ∃ faults turtle fresh calls records log,
    (w.callPrimitive p args).2 =
      { w with faults, turtle, fresh, output := { w.output with calls, records }, log } := by
  rw [callPrimitive_eq]
  cases p.call w.fresh w.turtle args with
  | error c => exact ⟨_, _, _, _, _, _, rfl⟩
  | ok e =>
    obtain ⟨fresh, calls, records, log, heq⟩ := carryOut_frame w e
    exact ⟨w.faults, e.turtle, fresh, calls, records, log, heq⟩

end World

end SteppedLogo
