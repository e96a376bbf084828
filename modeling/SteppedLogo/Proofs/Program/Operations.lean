import SteppedLogo.Listener.Basic

namespace SteppedLogo

namespace Code

variable {α β : Type}

/-- Each operation that the code may come to satisfies `P`. -/
def All (P : Op → Prop) : Code α → Prop
  | done _ => True
  | op o k => P o ∧ ∀ reply, (k reply).All P

theorem all_true (c : Code α) : c.All fun _ => True := by
  induction c with
  | done a => trivial
  | op o k ih => exact ⟨trivial, ih⟩

theorem All.imp {P Q : Op → Prop} (himp : ∀ o, P o → Q o) {c : Code α} (hc : c.All P) :
    c.All Q := by
  induction c with
  | done a => trivial
  | op o k ih => exact ⟨himp o hc.1, fun reply => ih reply (hc.2 reply)⟩

theorem All.bind {P : Op → Prop} {c : Code α} {f : α → Code β} (hc : c.All P) (hf : ∀ a, (f a).All P) :
    (c.bind f).All P := by
  induction c with
  | done a => exact hf a
  | op o k ih => exact ⟨hc.1, fun reply => ih reply (hc.2 reply)⟩

end Code

namespace Routine

variable {α β : Type}

/-- Each operation that the routine may come to satisfies `P`. -/
def All (P : Op → Prop) : Routine α → Prop
  | done _ => True
  | op o k => P o ∧ ∀ reply, (k reply).All P
  | await _ k => ∀ received, (k received).All P

theorem All.imp {P Q : Op → Prop} (himp : ∀ o, P o → Q o) {r : Routine α} (hr : r.All P) : r.All Q := by
  induction r with
  | done a => trivial
  | op o k ih => exact ⟨himp o hr.1, fun reply => ih reply (hr.2 reply)⟩
  | await w k ih => exact fun received => ih received (hr received)

theorem All.bind {P : Op → Prop} {r : Routine α} {f : α → Routine β} (hr : r.All P)
    (hf : ∀ a, (f a).All P) : (r.bind f).All P := by
  induction r with
  | done a => exact hf a
  | op o k ih => exact ⟨hr.1, fun reply => ih reply (hr.2 reply)⟩
  | await w k ih => exact fun received => ih received (hr received)

theorem all_true (r : Routine α) : r.All fun _ => True := by
  induction r with
  | done a => trivial
  | op o k ih => exact ⟨trivial, ih⟩
  | await w k ih => exact ih

end Routine

/-- Whether a deed takes a step at the gate. -/
def Deed.isStep : Deed → Bool
  | step _ => true
  | _ => false

/-- Operations that make no call boundary, and defer none. -/
def Op.IsQuiet : Op → Prop
  | hook _ | step _ => False
  | defer _ d => d.isStep = false
  | _ => True

/-- Operations that stop no timer by its number. -/
def Op.KeepsTimers : Op → Prop
  | dropTimer _ => False
  | _ => True

theorem Op.keepsTimers_or (o : Op) : o.KeepsTimers ∨ ∃ timer, o = .dropTimer timer := by
  cases o with
  | dropTimer timer => exact .inr ⟨timer, rfl⟩
  | _ => exact .inl trivial

/-- Operations that neither schedule nor settle anything, and set up no step. -/
def Op.IsAside : Op → Prop
  | hook _ | step _ | cancelGate _ | cancelStep .. | cancelRun _ | requestBreak _ | interrupt | start _ | cancelTracked _
  | cancelFuture _ | defer .. | invoke .. | nap _ | dropTimer _ => False
  | _ => True

/-- Operations that may cancel something by themselves. -/
def Op.MayCancel : Op → Prop
  | cancelGate _ | cancelStep .. | cancelRun _ | requestBreak _ | interrupt | cancelTracked _ | cancelFuture _ | invoke .. =>
    True
  | _ => False

/-- Operations that may go on beside a program: they make no call boundaries and do not count them
anew, call no words, and print no lines. -/
def Op.Steers : Op → Prop
  | hook _ | step _ | resetGate | newBody _ | invoke .. | recordCall .. | print .. | write (.line ..) => False
  | defer _ d => d.isStep = false
  | _ => True

theorem Op.Steers.quiet {o : Op} (hsteers : o.Steers) : o.IsQuiet := by
  cases o with
  | hook | step => exact hsteers
  | defer => exact hsteers
  | _ => trivial

/-- What the program of a run may do: only through the hook does it make call boundaries. -/
def Op.IsHookedOrQuiet : Op → Prop
  | hook _ => True
  | o => o.IsQuiet

/-- What may be performed for a deed. -/
def Deed.Performs (d : Deed) : Op → Prop
  | .step _ => d.isStep = true
  | .setInterval seconds => d = .setInterval seconds
  | .cancelGate _ | .cancelRun _ | .requestBreak _ | .interrupt | .raise _ | .addListener _ | .removeListener _ | .setPacing _
  | .release | .setTrace _ | .start _ | .track _ | .cancelTracked _ | .note _ | .report => True
  | _ => False

theorem Deed.code_performs (d : Deed) : d.code.run.All d.Performs := by
  cases d with
  | step func =>
    refine ⟨rfl, fun reply => ?_⟩
    cases reply <;> trivial
  | start source =>
    refine ⟨trivial, fun reply => ?_⟩
    cases reply with
    | error fault => trivial
    | ok future => exact ⟨trivial, fun _ => trivial⟩
  | setInterval seconds => exact ⟨rfl, fun _ => trivial⟩
  | setPacing seconds => exact ⟨trivial, fun _ => trivial⟩
  | cancelGate | cancelRun | interrupt => exact ⟨trivial, fun _ => ⟨trivial, fun _ => trivial⟩⟩
  | requestBreak | raise | add | remove | release | setTrace | cancelTask | report => exact ⟨trivial, fun _ => trivial⟩

/-- A deed that is no step may go on beside a program. -/
theorem Deed.code_steers {d : Deed} (hstep : d.isStep = false) : d.code.run.All Op.Steers := by
  refine d.code_performs.imp fun o ho => ?_
  cases o with
  | step => cases hstep.symm.trans ho
  | hook | resetGate | newBody | invoke | recordCall | print | write | defer => cases ho
  | _ => trivial

/-- A class of operations that make no call boundary, to which the deeds belong that may be deferred. -/
structure Op.Guards (P : Op → Prop) : Prop where
  quiet : ∀ o, P o → o.IsQuiet
  deed : ∀ d : Deed, d.isStep = false → d.code.run.All P

theorem Op.guards_quiet : Op.Guards Op.IsQuiet :=
  ⟨fun _ h => h, fun _ hstep => (Deed.code_steers hstep).imp fun _ h => h.quiet⟩

theorem Op.guards_steers : Op.Guards Op.Steers := ⟨fun _ h => h.quiet, fun _ => Deed.code_steers⟩

end SteppedLogo
