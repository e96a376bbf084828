import SteppedLogo.Proofs.Program.Planned
import SteppedLogo.Proofs.Session.Hosting
import SteppedLogo.Proofs.Session.Narrated

namespace SteppedLogo

namespace PlannedCall

/-- The record of the trace at the boundary of the call number `k`: the text of the body with the word of the call
between marks. -/
def marked (c : PlannedCall) (texts : List String) (k : Nat) : Printed :=
  .plain (Console.jsonRecord "trace" (some (k + 1)) (highlighted texts c.place))

/-- The records that are written at the boundary of the call number `k`. -/
def shown (c : PlannedCall) (traced : Bool) (texts : List String) (k : Nat) : List Printed :=
  if traced then [c.marked texts k] else []

/-- The records of what a call prints: only one of `print` prints, and that is the words that it takes. -/
def said (c : PlannedCall) : List Printed :=
  if c.handler = .primitive .print then [.plain (Console.jsonRecord "output" none (" ".intercalate c.inputs))] else []

/-- The records of the call number `k`, those of its boundary first. -/
def told (c : PlannedCall) (traced : Bool) (texts : List String) (k : Nat) : List Printed := c.shown traced texts k ++ c.said

end PlannedCall

/-- The records of calls that are numbered from `k` on. -/
def tellAll (traced : Bool) (texts : List String) : (k : Nat) → List PlannedCall → List Printed
  | _, [] => []
  | k, c :: rest => c.told traced texts k ++ tellAll traced texts (k + 1) rest

theorem tellAll_append (traced : Bool) (texts : List String) (k : Nat) (front back : List PlannedCall) :
    tellAll traced texts k (front ++ back) =
      tellAll traced texts k front ++ tellAll traced texts (k + front.length) back := by
  induction front generalizing k with
  | nil => rfl
  | cons c rest ih =>
    rw [List.cons_append, tellAll, ih, tellAll, List.append_assoc, List.length_cons, Nat.add_assoc, Nat.add_comm 1]

set_option maxRecDepth 1024 in
/-- What is written for a call of `print` is the word that it takes. -/
example : tellAll true ["print", "hi", "pd"] 0 (Words.planned turtleWords 0 0 ["print", "hi", "pd"]) =
    [.plain "\x7b\"category\": \"trace\", \"seq\": 1, \"text\": \"[>>print<< hi pd]\"\x7d\n",
     .plain "\x7b\"category\": \"output\", \"text\": \"hi\"\x7d\n",
     .plain "\x7b\"category\": \"trace\", \"seq\": 2, \"text\": \"[print hi >>pd<<]\"\x7d\n"] := by rfl

namespace World

/-- What a console that writes lines of JSON has written. -/
def console (w : World) : List Printed := w.output.records.toList.map ({ json := true } : Console).print

variable {env : Env} {w : World} {c : PlannedCall} {e : Effect} {fresh : Identity} {t : Turtle} {p : Primitive}

theorem console_printed (w : World) (category text : String) :
    (w.printed category text).console = w.console ++ [.plain (Console.jsonRecord category none text)] := by
  simp only [console, printed, Array.toList_push, List.map_append]
  rfl

theorem print_eq (hsink : ∀ n, w.output.accepts n = true) (category text : String) :
    w.print category text = w.printed category text := by
  rw [print, hsink]
  rfl

/-- A call changes the turtle, and writes what it prints. -/
theorem carryOut_eq (hsink : ∀ n, w.output.accepts n = true) (hp : c.handler = .primitive p)
    (hcall : p.call fresh t c.args = .ok e) : ∃ output : Output,
      w.carryOut e = { w with turtle := e.turtle, fresh := w.fresh + 2, output } ∧
        output.accepts = w.output.accepts ∧ { w with output }.console = w.console ++ c.said := by
  have hline := Primitive.line_of_call hcall
  have hshown : c.args.map Value.display = c.inputs := by
    rw [PlannedCall.args, List.map_map]
    exact List.map_id _
  rw [hshown] at hline
  unfold carryOut PlannedCall.said
  by_cases hprint : p = .print
  · rw [hline, if_pos hprint, if_pos (hprint ▸ hp)]
    exact ⟨_, print_eq (w := { w with turtle := e.turtle, fresh := w.fresh + 2 }) hsink _ _, rfl, console_printed w _ _⟩
  · rw [hline, if_neg hprint, if_neg (by rw [hp]; exact fun h => hprint (Handler.primitive.inj h)), List.append_nil]
    exact ⟨w.output, rfl, rfl, rfl⟩

/-- A call that is refused prints nothing, for `print` refuses none. -/
theorem said_of_error {complaint : Complaint} (hp : c.handler = .primitive p)
    (hcall : p.call fresh t c.args = .error complaint) : c.said = [] := by
  unfold PlannedCall.said
  rw [if_neg]
  rw [hp]
  rintro ⟨⟩
  cases hcall

end World

end SteppedLogo
