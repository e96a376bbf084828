import SteppedLogo.Proofs.Command.Effect
import SteppedLogo.Proofs.Prompt.Entries
import SteppedLogo.Proofs.Stream.Roles

namespace SteppedLogo

namespace Work

variable {α β : Type} {env : Env} {u v w : World} {a : α} {b : β}

/-- The work comes to its end at once: with the value `a`, and in the state `v`. -/
def EndsAtOnce (env : Env) (x : Work α) (w : World) (a : α) (v : World) : Prop :=
  x.run.run env w = (.finished (.ok a), v)

theorem endsAtOnce_pure (a : α) : (pure a : Work α).EndsAtOnce env w a w := rfl

/-- An operation ends at once, with its reply and what it leaves. -/
theorem endsAtOnce_perform {o : Op} {reply : o.Reply} (h : w.perform env o = (reply, v)) :
    (perform o).EndsAtOnce env w reply v :=
  congrArg (fun result : o.Reply × World => (Stop.finished (Except.ok (ε := FaultId) result.1), result.2)) h

/-- A piece of work that ends at once followed by another that does ends at once. -/
theorem EndsAtOnce.bind {x : Work α} {f : α → Work β} (hx : x.EndsAtOnce env w a v) (hf : (f a).EndsAtOnce env v b u) :
    (x >>= f).EndsAtOnce env w b u := by
  unfold EndsAtOnce
  rw [run_bind, Routine.run_bind_of_finished hx]
  exact hf

end Work

namespace Prompt

/-- The words of a command that is carried out: help, the state of the turtle and quitting with any inputs, the
    trace switched on or off, and an interval that is a number and not negative. -/
def Understood : List String → Prop
  | "help" :: _ | "turtle" :: _ | "quit" :: _ | ["trace", "on"] | ["trace", "off"] => True
  | ["interval", text] => ∃ seconds, Decimal.read? text = some seconds ∧ ¬ seconds < 0.0
  | _ => False

end Prompt

namespace World

/-- The settings as the words of a command ask for them. -/
def obey (w : World) : List String → World
  | ["trace", "on"] => w.setTrace true
  | ["trace", "off"] => (w.setTrace false).modifyShownView DebugView.clear
  | ["interval", text] => w.setInterval ((Decimal.read? text).getD w.gate.interval)
  | _ => w

def writeAll (w : World) (texts : List String) : World := texts.foldl (fun w text => w.write (.text text)) w

/-- What the words of a command make of a bridge: they are understood, and what they ask for is done and told; or a
    line says why they are not, which may need a fault. -/
def Heeds (w : World) (words : List String) (v : World) : Prop :=
  (Prompt.Understood words ∧ ∃ texts, v = (w.obey words).writeAll texts) ∨
  (¬ Prompt.Understood words ∧ ∃ faults text, v = ({ w with faults } : World).print "error" text)

/-- The bridge with the given settings: the interval, whether the trace is shown, and the view that is shown. -/
def configure (w : World) (interval : Float) (traceOn : Bool) (view : DebugView) : World :=
  { w with
    gate.interval := interval
    session.traceOn := traceOn
    trace.view := if w.hostView.isSome then w.trace.view else view
    hostView := w.hostView.map fun _ => view }

/-- How the words of a command lead from one state of a bridge to another. -/
structure Commanded (w : World) (words : List String) (v : World) : Prop where
  /-- Runs, jobs, timers, the turtle and the status that is remembered stay as they are; so does the trace, but for
      the view that is shown. -/
  frame : v = { w.configure v.gate.interval v.session.traceOn v.shownView with
    faults := v.faults, output := v.output, log := v.log }
  /-- One line of complaint is all that comes of a command that is not understood. -/
  refused : ¬ Prompt.Understood words → (∃ text, v.output = (w.print "error" text).output) ∧
    v.gate.interval = w.gate.interval ∧ v.session.traceOn = w.session.traceOn ∧ v.shownView = w.shownView
  /-- One that is understood prints no line to a sink, but writes on the console. -/
  told : Prompt.Understood words → ∃ texts : List String,
    v.output = { w.output with records := w.output.records ++ texts.map Record.text }
  interval : Prompt.Understood words → ∀ text, words = ["interval", text] → Decimal.read? text = some v.gate.interval
  interval_kept : (∀ text, words ≠ ["interval", text]) → v.gate.interval = w.gate.interval
  traced : words = ["trace", "on"] → v.session.traceOn = true ∧ v.shownView = w.shownView
  untraced : words = ["trace", "off"] → v.session.traceOn = false ∧ v.shownView = w.shownView.clear
  trace_kept : words ≠ ["trace", "on"] → words ≠ ["trace", "off"] →
    v.session.traceOn = w.session.traceOn ∧ v.shownView = w.shownView

section

variable {w v : World} {words : List String}

theorem writeAll_eq (w : World) (texts : List String) : w.writeAll texts =
    { w with output := { w.output with records := w.output.records ++ texts.map Record.text } } := by
  induction texts generalizing w with
  | nil => simp [writeAll]
  | cons text texts ih =>
    have hwrite : w.output.records.push (.text text) ++ texts.map Record.text =
        w.output.records ++ (text :: texts).map Record.text := by simp
    change (w.write (.text text)).writeAll texts = _
    rw [ih, ← hwrite]
    rfl

/-- Setting the interval, the trace and the view to what they are changes nothing. -/
theorem configure_self (w : World) : w.configure w.gate.interval w.session.traceOn w.shownView = w := by
  unfold configure shownView
  rcases w with ⟨_, _, _, _, _, _, _, _, _, _, _ | view⟩ <;> rfl

/-- To obey is to change the settings. -/
theorem obey_configures (w : World) (words : List String) :
    ∃ interval traceOn view, w.obey words = w.configure interval traceOn view := by
  refine ⟨(w.obey words).gate.interval, (w.obey words).session.traceOn, (w.obey words).shownView, ?_⟩
  unfold obey configure modifyShownView shownView
  rcases w with ⟨_, _, _, _, _, _, _, _, _, _, _ | view⟩ <;> split <;> rfl

/-- A state that is told by some settings is told by its own. -/
theorem configured_eq
    (h : ∃ interval traceOn view faults output log, v = { w.configure interval traceOn view with faults, output, log }) :
    v = { w.configure v.gate.interval v.session.traceOn v.shownView with
      faults := v.faults, output := v.output, log := v.log } := by
  obtain ⟨interval, traceOn, view, faults, output, log, rfl⟩ := h
  unfold configure shownView
  rcases w with ⟨_, _, _, _, _, _, _, _, _, _, _ | view⟩ <;> rfl

theorem print_output_faults (w : World) (faults : Faults) (category text : String) :
    (({ w with faults } : World).print category text).output = (w.print category text).output := by
  unfold print
  dsimp only
  split <;> rfl

/-- A command that is not an interval with one text keeps the interval. -/
theorem obey_interval_kept (h : ∀ text, words ≠ ["interval", text]) : (w.obey words).gate.interval = w.gate.interval := by
  unfold obey modifyShownView
  split
  · rfl
  · split <;> rfl
  · exact absurd rfl (h _)
  · rfl

/-- A command that is neither trace on nor trace off keeps the trace and the view. -/
theorem obey_trace_kept (hon : words ≠ ["trace", "on"]) (hoff : words ≠ ["trace", "off"]) :
    (w.obey words).session.traceOn = w.session.traceOn ∧ (w.obey words).shownView = w.shownView := by
  unfold obey
  split
  · exact absurd rfl hon
  · exact absurd rfl hoff
  · exact ⟨rfl, rfl⟩
  · exact ⟨rfl, rfl⟩

/-- The command trace off turns the trace off and clears the view. -/
theorem obey_untraced (w : World) :
    (w.obey ["trace", "off"]).session.traceOn = false ∧ (w.obey ["trace", "off"]).shownView = w.shownView.clear := by
  unfold obey modifyShownView shownView
  rcases w with ⟨_, _, _, _, _, _, _, _, _, _, _ | view⟩ <;> exact ⟨rfl, rfl⟩

/-- What heeds a command does all that is said of commands. -/
theorem Heeds.commanded (h : w.Heeds words v) : w.Commanded words v := by
  obtain ⟨hunderstood, texts, rfl⟩ | ⟨hnot, faults, text, rfl⟩ := h
  · obtain ⟨interval, traceOn, view, hobey⟩ := obey_configures w words
    rw [writeAll_eq]
    refine
      { frame := configured_eq ⟨interval, traceOn, view, _, _, _, by rw [hobey]⟩
        refused := (absurd hunderstood ·)
        told := fun _ => ⟨texts, by rw [hobey]; rfl⟩
        interval := ?_
        interval_kept := obey_interval_kept
        traced := ?_
        untraced := ?_
        trace_kept := obey_trace_kept }
    · rintro - text rfl
      obtain ⟨seconds, hread, -⟩ := hunderstood
      simp only [obey, hread]
      rfl
    · rintro rfl
      exact ⟨rfl, rfl⟩
    · rintro rfl
      exact obey_untraced w
  · obtain ⟨calls, records, log, hprint⟩ := print_frame { w with faults } "error" text
    have hkept : w.configure w.gate.interval w.session.traceOn w.shownView = w := configure_self w
    have houtput := print_output_faults w faults "error" text
    rw [hprint] at houtput ⊢
    exact
      { frame := configured_eq ⟨w.gate.interval, w.session.traceOn, w.shownView, _, _, _, by rw [hkept]⟩
        refused := fun _ => ⟨⟨text, houtput⟩, rfl, rfl, rfl⟩
        told := (absurd · hnot)
        interval := (absurd · hnot)
        interval_kept := fun _ => rfl
        traced := fun h => absurd (h ▸ trivial) hnot
        untraced := fun h => absurd (h ▸ trivial) hnot
        trace_kept := fun _ _ => ⟨rfl, rfl⟩ }

end

end World

namespace Prompt

variable {env : Env} {w : World}

/-- The command trace with other texts than on or off is not understood. -/
theorem not_understood_trace {args : List String} (hon : args ≠ ["on"]) (hoff : args ≠ ["off"]) :
    ¬ Understood ("trace" :: args) := by
  unfold Understood
  split <;> simp_all

/-- The command interval is understood with one text only. -/
theorem not_understood_interval {args : List String} (h : ∀ text, args ≠ [text]) :
    ¬ Understood ("interval" :: args) := by
  unfold Understood
  split <;> simp_all

/-- Only the name of a command is understood. -/
theorem Understood.ofName?_isSome {name : String} {args : List String} (h : Understood (name :: args)) :
    (HostCommand.ofName? name).isSome := by
  unfold Understood at h
  split at h
  case h_7 => exact h.elim
  all_goals
    rename_i heq
    cases heq
    rfl

/-- A complaint ends at once and writes one error line. -/
theorem complainOf_ends (text : String) : (complainOf text).EndsAtOnce env w () (w.print "error" text) := rfl

/-- Writing a text ends at once and writes it with an end of line. -/
theorem writeText_ends (text : String) : (writeText text).EndsAtOnce env w () (w.writeAll [text ++ "\n"]) := rfl

/-- Refusing a command ends at once and writes one error line with its usage. -/
theorem refuse_ends (c : HostCommand) (text : String) :
    (refuse c text).EndsAtOnce env w () (w.print "error" (text ++ " (usage: " ++ c.usage ++ ")")) := rfl

/-- The help ends at once and writes both tables. -/
theorem showHelp_ends : showHelp.EndsAtOnce env w ()
    (w.writeAll [HostCommand.table.render ++ "\n", "\n", Primitive.help.render ++ "\n"]) := rfl

/-- Coordinates that are doubles can always be shown. -/
theorem showTurtle_ends {x y : Float} (hx : w.turtle.position.x = .real x) (hy : w.turtle.position.y = .real y) :
    ∃ texts, showTurtle.EndsAtOnce env w () (w.writeAll texts) := by
  have hsummary : ∃ table, w.turtle.summary = .ok table := by
    unfold Turtle.summary Coordinate.brief
    rw [hx, hy]
    exact ⟨_, rfl⟩
  obtain ⟨table, htable⟩ := hsummary
  refine ⟨[table.render ++ "\n"], (Work.endsAtOnce_perform (o := .turtle) rfl).bind ?_⟩
  rw [htable]
  exact writeText_ends _

/-- Turning the trace on or off ends at once and says so. -/
theorem setTrace_ends (on : Bool) : (setTrace on).EndsAtOnce env w ()
    ((w.obey ["trace", if on then "on" else "off"]).writeAll ["trace " ++ (if on then "on" else "off") ++ "\n"]) := by
  cases on <;> rfl

/-- Setting the interval ends at once, whether the text is a number that may be one or not. -/
theorem setInterval_ends (text : String) :
    ∃ v, (setInterval text).EndsAtOnce env w () v ∧ w.Heeds ["interval", text] v := by
  unfold setInterval
  cases hread : Decimal.read? text with
  | none =>
    refine ⟨_, refuse_ends .interval _, .inr ⟨?_, w.faults, _, rfl⟩⟩
    rintro ⟨seconds, hseconds, -⟩
    cases hread.symm.trans hseconds
  | some seconds =>
    by_cases hnegative : seconds < 0.0
    · -- the setting is refused before it changes, and only then is the refusal told
      obtain ⟨id, faults, hcomplain⟩ : ∃ id faults, w.complain World.negativeInterval = (.error id, { w with faults }) :=
        ⟨_, _, rfl⟩
      have hrefused : w.perform env (.setPacing seconds) = (.error id, { w with faults }) :=
        (if_pos hnegative).trans hcomplain
      refine ⟨_, (Work.endsAtOnce_perform hrefused).bind ((Work.endsAtOnce_perform rfl).bind (refuse_ends .interval _)),
        .inr ⟨?_, faults, _, rfl⟩⟩
      rintro ⟨seconds', hread', hvalid⟩
      cases hread.symm.trans hread'
      exact hvalid hnegative
    · have haccepted : w.perform env (.setPacing seconds) = (.ok (), w.setInterval seconds) := if_neg hnegative
      refine ⟨_, (Work.endsAtOnce_perform haccepted).bind ((Work.endsAtOnce_perform rfl).bind (writeText_ends _)),
        .inl ⟨⟨seconds, hread, hnegative⟩, ["pacing interval " ++ Decimal.generalText seconds ++ "s" ++ "\n"], ?_⟩⟩
      rw [World.obey, hread]
      rfl

/-- A command that is known ends at once and is heeded, provided the turtle stands at two doubles; only quit ends the prompt.
-/
theorem runCommand_ends {x y : Float} (hx : w.turtle.position.x = .real x) (hy : w.turtle.position.y = .real y)
    (c : HostCommand) (args : List String) :
    ∃ v, (runCommand c args).EndsAtOnce env w (c != .quit) v ∧ w.Heeds (c.name :: args) v := by
  unfold runCommand
  -- help, turtle, trace with its two inputs and with others, interval with one input and with others, quit
  split
  · exact ⟨_, showHelp_ends.bind (Work.endsAtOnce_pure _), .inl ⟨trivial, _, rfl⟩⟩
  · obtain ⟨texts, hends⟩ := showTurtle_ends hx hy
    exact ⟨_, hends.bind (Work.endsAtOnce_pure _), .inl ⟨trivial, texts, rfl⟩⟩
  · exact ⟨_, (setTrace_ends true).bind (Work.endsAtOnce_pure _), .inl ⟨trivial, _, rfl⟩⟩
  · exact ⟨_, (setTrace_ends false).bind (Work.endsAtOnce_pure _), .inl ⟨trivial, _, rfl⟩⟩
  · next args hon hoff =>
    exact ⟨_, (refuse_ends .trace _).bind (Work.endsAtOnce_pure _),
      .inr ⟨not_understood_trace hon hoff, w.faults, _, rfl⟩⟩
  · next text =>
    obtain ⟨v, hends, hv⟩ := setInterval_ends text
    exact ⟨v, hends.bind (Work.endsAtOnce_pure _), hv⟩
  · next args hone =>
    exact ⟨_, (refuse_ends .interval _).bind (Work.endsAtOnce_pure _),
      .inr ⟨not_understood_interval hone, w.faults, _, rfl⟩⟩
  · exact ⟨_, Work.endsAtOnce_pure _, .inl ⟨trivial, [], rfl⟩⟩

/-- Any words behind the mark end at once and are heeded, provided the turtle stands at two doubles. -/
theorem dispatchCommand_ends (env : Env) {x y : Float} (hx : w.turtle.position.x = .real x)
    (hy : w.turtle.position.y = .real y)
    (words : List String) :
    ∃ goesOn v, (dispatchCommand words).EndsAtOnce env w goesOn v ∧ w.Heeds words v := by
  cases words with
  | nil => exact ⟨_, _, (complainOf_ends _).bind (Work.endsAtOnce_pure _), .inr ⟨id, w.faults, _, rfl⟩⟩
  | cons name args =>
    rw [dispatchCommand]
    cases hname : HostCommand.ofName? name with
    | none =>
      refine ⟨_, _, (complainOf_ends _).bind (Work.endsAtOnce_pure _), .inr ⟨fun h => ?_, w.faults, _, rfl⟩⟩
      simpa [hname] using h.ofName?_isSome
    | some c =>
      have hc : c.name = name := by simpa using List.find?_some hname
      subst hc
      obtain ⟨v, hends, hv⟩ := runCommand_ends hx hy c args
      exact ⟨_, v, hends, hv⟩

/-- A command at the prompt, whatever its words are, comes to its end without a fault and runs no program, and the
    prompt goes on unless the first word is `quit`; what else becomes of it is told by `World.Commanded`. -/
theorem command_all_or_nothing (run : Runner) {entry : String} {rest : List Char} {x y : Float}
    (hentry : Text.trim entry.toList = ':' :: rest)
    (hx : w.turtle.position.x = .real x) (hy : w.turtle.position.y = .real y) :
    (∃ v, (dispatch run entry).EndsAtOnce env w ((Text.words (String.ofList rest)).head? != some "quit") v ∧
      w.Commanded (Text.words (String.ofList rest)) v) ∧
    ∀ run', dispatch run' entry = dispatch run entry := by
  have hrequest : Request.ofEntry entry = .command (Text.words (String.ofList rest)) := by
    rw [Request.ofEntry, hentry]
    rfl
  constructor
  · obtain ⟨goesOn, v, hends, hheeds⟩ := dispatchCommand_ends env hx hy (Text.words (String.ofList rest))
    refine ⟨v, ?_, hheeds.commanded⟩
    rw [dispatch_eq, hrequest]
    exact (hends.bind (Work.endsAtOnce_pure ())).bind (Work.endsAtOnce_pure _)
  · intro run'
    rw [dispatch_eq, dispatch_eq, hrequest]
    rfl

/-- The command `:trace off` ends at once, and turns the trace off. -/
theorem trace_off_heeded : ∃ v : World,
    (dispatch hostRunner " :trace off").EndsAtOnce ⟨fun _ => pure .none, fun _ _ => pure (), true⟩ {} true v ∧
      v.session.traceOn = false := by
  have hentry : Text.trim " :trace off".toList = ':' :: "trace off".toList := by rfl
  obtain ⟨⟨v, hends, hv⟩, -⟩ := command_all_or_nothing (w := {}) hostRunner hentry rfl rfl
  exact ⟨v, hends, (hv.untraced rfl).1⟩

end Prompt

end SteppedLogo
