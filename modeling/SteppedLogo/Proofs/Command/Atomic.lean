import SteppedLogo.Proofs.Command.Effect
import SteppedLogo.Turtle.Move

namespace SteppedLogo

/-- The part of the turtle that a word may change. -/
inductive Scope
  | place | heading | pen | color | screen | nothing
  deriving DecidableEq

namespace Scope

/-- What may become of a turtle. A new place comes with one segment exactly if the pen is down; a
    new screen leaves the pen as it is. -/
def Allows : Scope → Turtle → Turtle → Prop
  | place, t, u => ∃ stop : Point, u = { t with
      position := stop
      segments := if t.penDown then t.segments.push ⟨t.position, stop, t.penColor⟩ else t.segments }
  | heading, t, u => ∃ degrees, u = { t with heading := degrees }
  | pen, t, u => ∃ penDown, u = { t with penDown }
  | color, t, u => ∃ penColor, u = { t with penColor }
  | screen, t, u => u = { t with position := ⟨.real 0.0, .real 0.0⟩, heading := 0.0, segments := #[] }
  | nothing, t, u => u = t

/-- The scope of a word, under any of its names. -/
def ofWord? : String → Option Scope
  | "forward" | "fd" | "back" | "bk" | "setpos" => some place
  | "right" | "rt" | "left" | "lt" | "seth" | "setheading" => some heading
  | "up" | "pu" | "down" | "pd" => some pen
  | "color" => some color
  | "cs" | "clearscreen" => some screen
  | "print" | "xcor" | "ycor" | "pos" | "heading" => some nothing
  | _ => none

end Scope

/-- A line is put to the sink, which keeps it or refuses it. -/
def Output.take (o : Output) (text : String) : Output :=
  { o with
    calls := o.calls + 1
    records := if o.accepts o.calls then o.records.push (.line "output" text) else o.records }

/-- What has been printed after a call that returns: `print` prints a line of its inputs, and no
    other word prints. -/
def Output.afterCall (o : Output) (word : String) (args : List Value) : Output :=
  if word = "print" then o.take (" ".intercalate (args.map Value.display)) else o

/-- A call of a word has ended with `result`, and changed only what is in the scope of the word. -/
structure World.KeepsToScope (w : World) (word : String) (args : List Value) (result : Except FaultId Value × World) :
    Prop where
  refused : ∀ fault, result.1 = .error fault → result.2.turtle = w.turtle ∧ result.2.output = w.output
  turtle : ∀ value, result.1 = .ok value →
    ∃ scope, Scope.ofWord? word = some scope ∧ scope.Allows w.turtle result.2.turtle
  output : ∀ value, result.1 = .ok value → result.2.output = w.output.afterCall word args

theorem Turtle.advance_allows {t u : Turtle} {distance : Float → Except Complaint Float}
    (h : t.advance distance = .ok u) : Scope.place.Allows t u := by
  obtain ⟨a, -, h⟩ := ok_of_bind h
  obtain ⟨x, -, h⟩ := ok_of_bind h
  obtain ⟨b, -, h⟩ := ok_of_bind h
  obtain ⟨y, -, h⟩ := ok_of_bind h
  cases h
  exact ⟨_, rfl⟩

theorem Turtle.forward_allows {t u : Turtle} {distance : Float} (h : t.forward distance = .ok u) :
    Scope.place.Allows t u := advance_allows h

/-- What a move makes of the turtle. -/
def Move.call (t : Turtle) : Move → Except Complaint Turtle
  | forward distance => t.advance (mulOperand distance)
  | back distance => do t.advance (mulOperand (← negOperand distance))
  | right degrees => return t.setHeading (← addOperand t.heading degrees)
  | left degrees => return t.setHeading (← subOperand t.heading degrees)
  | heading degrees => return t.setHeading (← toFloat degrees)
  | setPos x y => return t.moveTo (← toFloat x) (← toFloat y)
  | up => .ok t.up
  | down => .ok t.down
  | color spec => .ok (t.setColor spec)
  | clearScreen => .ok t.clearScreen

/-- A move that is refused leaves the turtle as it was. -/
theorem Move.method_comesTo (m : Move) (t : Turtle) : m.method.ComesTo t (m.call t) := by
  cases m with
  | forward distance => exact TurtleM.advance_comesTo _
  | back distance => exact .of_lift _ fun _ => TurtleM.advance_comesTo _
  | right degrees => exact .of_get (.of_lift _ fun _ => rfl)
  | left degrees => exact .of_get (.of_lift _ fun _ => rfl)
  | heading degrees => exact .of_lift _ fun _ => rfl
  | setPos x y => exact .of_lift _ fun _ => .of_lift _ fun _ => TurtleM.moveTo_comesTo _ _
  | up | down | color spec | clearScreen => rfl

theorem Turtle.apply_eq_call (t : Turtle) (m : Move) : t.apply m = m.call t := by
  unfold apply
  rw [m.method_comesTo t]
  cases m.call t <;> rfl

namespace Primitive

variable {p : Primitive} {fresh : Identity} {t : Turtle} {args : List Value} {e : Effect}

def scope : Primitive → Scope
  | forward | back | setpos => .place
  | right | left | seth => .heading
  | up | down => .pen
  | color => .color
  | clearScreen => .screen
  | print | xcor | ycor | pos | heading => .nothing

theorem call_allows (h : p.call fresh t args = .ok e) : p.scope.Allows t e.turtle := by
  unfold call at h
  split at h
  -- the words that convert an input before they act
  case h_6 =>
    obtain ⟨⟨x, y⟩, -, hdone⟩ := ok_of_bind h
    cases hdone
    exact ⟨_, rfl⟩
  case h_9 | h_10 =>
    obtain ⟨x, -, hmoved⟩ := ok_of_bind h
    obtain ⟨u, hforward, hdone⟩ := ok_of_bind hmoved
    cases hdone
    exact Turtle.forward_allows hforward
  case h_8 | h_11 | h_12 =>
    obtain ⟨x, -, hdone⟩ := ok_of_bind h
    cases hdone
    exact ⟨_, rfl⟩
  case h_13 | h_14 | h_15 =>
    cases h
    exact ⟨_, rfl⟩
  all_goals cases h
  all_goals rfl

/-- Every key of the table has the scope of the word that it finds, and only one finds `print`. -/
theorem scope_of_owner : ∀ owner ∈ registry.owners,
    Scope.ofWord? owner.1 = some owner.2.handler.scope ∧ (owner.1 = "print" ↔ owner.2.handler = print) := by
  decide +kernel

theorem scope_of_word {word : String} {c : Command Primitive} (h : registry.get? word = some c) :
    Scope.ofWord? word = some c.handler.scope ∧ (word = "print" ↔ c.handler = print) := by
  obtain ⟨before, after, heq, -⟩ := List.lookup_eq_some_iff.1 h
  exact scope_of_owner (word, c) (heq ▸ List.mem_append_right _ (List.mem_cons_self ..))

end Primitive

namespace World

theorem print_output (w : World) (text : String) : (w.print "output" text).output = w.output.take text := by
  unfold print Output.take
  dsimp only
  split <;> rfl

theorem carryOut_output (w : World) (e : Effect) : (w.carryOut e).output = e.line.elim w.output w.output.take := by
  unfold carryOut
  cases e.line with
  | none => rfl
  | some text => exact print_output _ text

/-- Calling a word of the table by any of its names, with any arguments in any world: if it is refused turtle and output
stay as they are, and if it returns only what is in the scope of the word has changed. -/
theorem words_keep_to_scope {word : String} {c : Command Primitive} (hword : Primitive.registry.get? word = some c)
    (env : Env) (w : World) (args : List Value) :
    w.KeepsToScope word args (w.invoke env (.primitive c.handler) args) := by
  obtain ⟨hscope, hprint⟩ := Primitive.scope_of_word hword
  change w.KeepsToScope word args (w.callPrimitive c.handler args)
  rw [callPrimitive_eq]
  cases hcall : c.handler.call w.fresh w.turtle args with
  | error complaint =>
    exact ⟨fun _ _ => ⟨rfl, rfl⟩, fun _ h => (by cases h), fun _ h => (by cases h)⟩
  | ok e =>
    refine ⟨fun _ h => (by cases h), fun _ _ => ⟨_, hscope, ?_⟩, fun _ _ => ?_⟩
    · have hturtle : (w.carryOut e).turtle = e.turtle := by
        obtain ⟨_, _, _, _, heq⟩ := carryOut_frame w e
        rw [heq]
      change c.handler.scope.Allows w.turtle (w.carryOut e).turtle
      rw [hturtle]
      exact Primitive.call_allows hcall
    · rw [carryOut_output, Primitive.line_of_call hcall, Output.afterCall]
      by_cases hp : c.handler = .print
      · rw [if_pos hp, if_pos (hprint.2 hp)]
        rfl
      · rw [if_neg hp, if_neg fun h => hp (hprint.1 h)]
        rfl

end World

/-- An interpreter of empty programs. -/
def Env.idle : Env := { program := fun _ => pure .none, react := fun _ _ => pure () }

set_option maxRecDepth 1024 in
/-- A truth value is no distance, so that `bk` goes nowhere; `pu` lifts the pen. -/
theorem World.bk_refused_pu_done :
    Primitive.registry.get? "bk" = some ⟨"back", "Move backward", .back, ["bk"]⟩ ∧
      (({} : World).invoke .idle (.primitive .back) [.bool true]).1 = .error 0 ∧
      ({} : World).KeepsToScope "bk" [.bool true] (({} : World).invoke .idle (.primitive .back) [.bool true]) ∧
      Primitive.registry.get? "pu" = some ⟨"up", "Lift the pen", .up, ["pu"]⟩ ∧
      (({} : World).invoke .idle (.primitive .up) []).1 = .ok .none ∧
      ({} : World).KeepsToScope "pu" [] (({} : World).invoke .idle (.primitive .up) []) := by
  have hbk : Primitive.registry.get? "bk" = some ⟨"back", "Move backward", .back, ["bk"]⟩ := by rfl
  have hpu : Primitive.registry.get? "pu" = some ⟨"up", "Lift the pen", .up, ["pu"]⟩ := by rfl
  exact ⟨hbk, rfl, words_keep_to_scope hbk _ _ _, hpu, rfl, words_keep_to_scope hpu _ _ _⟩

end SteppedLogo
