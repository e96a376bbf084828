import SteppedLogo.Proofs.Gate.Listeners
import SteppedLogo.Proofs.Session.Ending
import SteppedLogo.Proofs.Shadow.Scene

namespace SteppedLogo

theorem Output.lines_write (o : Output) (r : Record) : (o.write r).lines = o.lines ++ Record.lines [r] := by
  simp [Output.write, Output.lines, Record.lines]

/-- Printing adds its line to the output, if the sink accepts it. -/
theorem Output.lines_print (o : Output) (category text : String) : (o.print category text).lines =
    o.lines ++ if o.accepts o.calls then [(category, text)] else [] := by
  unfold Output.print Output.lines
  dsimp only
  split <;> simp [Record.lines]

namespace World

/-- A session in which listeners and the sink may fail, beside one in which the sink never does: they differ in what
listeners have done, and in the lines that were refused. -/
def watched : Skew where
  steps := 0
  runs := 0
  first := 0
  number := 1
  left := none
  recounts := False
  Prints _ o o' := o.lines.Sublist o'.lines ∧ ∀ n, o'.accepts n = true
  print category htext h := by
    refine ⟨?_, h.2⟩
    rw [htext.eq, Output.lines_print, Output.lines_print, h.2, if_pos rfl]
    refine h.1.append ?_
    split
    · exact List.Sublist.refl _
    · exact List.nil_sublist _
  write r h := by
    refine ⟨?_, h.2⟩
    rw [Output.lines_write, Output.lines_write]
    exact h.1.append_right _
  stale _ hleft := Bool.noConfusion hleft
  settles h := h

/-- What listeners change that only record or raise: faults are added, and what is recorded, but no line is printed. -/
inductive Observed (w : World) : World → Prop
  | intro {faults : Faults} {output : Output} (log : Array LogRecord) (events : Array Event) (spent : List (String × Nat))
    (hfaults : ∀ id f, w.faults.get? id = some f → faults.get? id = some f) (haccepts : output.accepts = w.output.accepts)
    (hlines : output.lines = w.output.lines) : Observed w { w with faults, output, log, events, spent }

variable {T : Pairing} {u v w : World} {env env' : Env}

theorem Observed.refl (w : World) : w.Observed w := .intro w.log w.events w.spent (fun _ _ h => h) rfl rfl

theorem Observed.trans (huv : u.Observed v) (hvw : v.Observed w) : u.Observed w := by
  cases huv with
  | intro log events spent hfaults haccepts hlines =>
    cases hvw with
    | intro log' events' spent' hfaults' haccepts' hlines' =>
      exact .intro log' events' spent' (fun id f hf => hfaults' id f (hfaults id f hf)) (haccepts'.trans haccepts)
        (hlines'.trans hlines)

end World

/-- What can be told of the end of a future: its value, or the kind and the text of a fault. -/
inductive Ending
  | value (v : Value)
  | fault (kind : FaultKind) (message : String)
  | cancelled

namespace World

def ending (w : World) : Outcome → Ending
  | .value x => .value x
  | .fault id => .fault (w.faults.kindOf id) (w.faults.messageOf id)
  | .cancelled => .cancelled

variable {T : Pairing} {w v : World}

/-- A future ends in the same way in a world and in its shadow. -/
theorem Shadows.ending (h : w.Shadows watched T v) (id : FutureId) :
    (w.outcome? id).map w.ending = (v.outcome? id).map v.ending := by
  have houtcome := h.outcome? id
  generalize w.outcome? id = o at houtcome
  generalize v.outcome? id = o' at houtcome
  cases houtcome with
  | none => rfl
  | some ho =>
    cases ho with
    | value | cancelled => rfl
    | fault hid =>
      have hmessage := (h.faults.messageOf hid).eq
      simp only [Option.map_some, World.ending, h.faults.kindOf hid, hmessage]

end World

namespace Scene

open World

variable {env env' : Env}

end Scene

end SteppedLogo
