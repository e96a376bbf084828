import SteppedLogo.Interpreter.Basic
import SteppedLogo.Proofs.Program.Wrapping

namespace SteppedLogo

/-- What a program of words performs besides making call boundaries. -/
def Op.IsWork : Op → Prop
  | newBody _ | invoke .. | recordCall .. | setCause .. | raiseWhile .. | describe _ => True
  | raise (.plain c) => c.kind.isError = true
  | _ => False

/-- A program is given a fault with the answer to an operation. -/
def Op.Gives : (o : Op) → o.Reply → FaultId → Prop
  | .raise _, (raised : FaultId), id => id = raised
  | .invoke .., (reply : Except FaultId Value), id => reply = .error id
  | _, _, _ => False

namespace Routine

variable {α β : Type}

/-- Each call boundary is waited for as soon as it is made. The faults that have been given so far are `known`, and `Q`
holds of them and of the result at the end. -/
inductive Stepwise (Q : (FaultId → Prop) → α → Prop) : (FaultId → Prop) → Routine α → Prop
  | done {known : FaultId → Prop} {a : α} (ha : Q known a) : Stepwise Q known (.done a)
  | op {known : FaultId → Prop} {o : Op} {k : o.Reply → Routine α} (ho : o.IsWork)
    (hk : ∀ reply, Stepwise Q (fun id => known id ∨ o.Gives reply id) (k reply)) : Stepwise Q known (.op o k)
  | hook {known : FaultId → Prop} {call : Call} {args : List Value} {k : Except FaultId Step → Routine α}
    {g : Step → Except FaultId Value → Routine α} (hargs : call.args.items = .ok args)
    (hok : ∀ step, k (.ok step) = .await (some step.future) (g step))
    (hg : ∀ step received, Stepwise Q (fun id => known id ∨ received = .error id) (g step received)) :
    Stepwise Q known (.op (.hook call) k)

/-- A result is no error, or one that is known. -/
def Told (known : FaultId → Prop) (result : Except FaultId α) : Prop := ∀ id, result = .error id → known id

theorem told_ok (known : FaultId → Prop) (a : α) : Told known (.ok a) := nofun

theorem told_error {known : FaultId → Prop} {id : FaultId} (h : known id) : Told known (.error id : Except FaultId α) := by
  rintro _ ⟨⟩
  exact h

theorem Stepwise.bind {Q : (FaultId → Prop) → α → Prop} {R : (FaultId → Prop) → β → Prop} {known : FaultId → Prop}
    {r : Routine α} {f : α → Routine β} (hr : r.Stepwise Q known)
    (hf : ∀ known a, Q known a → (f a).Stepwise R known) : (r.bind f).Stepwise R known := by
  induction hr with
  | done ha => exact hf _ _ ha
  | op ho _ ih => exact .op ho ih
  | @hook known call args k g hargs hok _ ih =>
    refine .hook (g := fun step received => (g step received).bind f) hargs (fun step => ?_) ih
    simp only [hok, Routine.bind]

end Routine

open Routine (Stepwise Told told_ok told_error)

theorem Work.stepwise_bind {α β : Type} {x : Work α} {f : α → Work β} {known : FaultId → Prop}
    (hx : x.run.Stepwise Told known) (hf : ∀ known a, (f a).run.Stepwise Told known) :
    (x >>= f).run.Stepwise Told known := by
  rw [Work.run_bind]
  refine hx.bind fun known result hresult => ?_
  cases result with
  | ok a => exact hf known a
  | error fault => exact .done (told_error (hresult fault rfl))

namespace Words

variable {known : FaultId → Prop}

/-- A call waits for its call boundary, and is made behind it. -/
theorem stepwise_callHandler (body : LogoList) (c : OpenCall) (known : FaultId → Prop) :
    (callHandler true body c).run.Stepwise Told known := by
  refine .hook rfl (fun step => rfl) fun step received => ?_
  cases received with
  | error fault => exact .done (told_error (.inr rfl))
  | ok v =>
    refine .op trivial fun _ => .op trivial fun reply => ?_
    cases reply with
    | error fault => exact .done (told_error (.inr rfl))
    | ok v => exact .done (told_ok _ _)

theorem stepwise_fail {α : Type} {c : Complaint} (herror : c.kind.isError = true) (known : FaultId → Prop) :
    (Work.fail (.plain c) : Work α).run.Stepwise Told known :=
  .op herror fun _ => .done (told_error (.inr rfl))

/-- Words that are unknown or lack inputs are errors of the language. -/
theorem stepwise_walk (words : Words) (body : LogoList) (open_ : Option OpenCall) (cells : List Cell)
    (known : FaultId → Prop) : (walk words true body open_ cells).run.Stepwise Told known := by
  induction cells generalizing open_ known with
  | nil =>
    cases open_ with
    | none => exact .done (told_ok _ _)
    | some c => exact stepwise_fail rfl known
  | cons cell rest ih =>
    have hcall (c : OpenCall) : (do callHandler true body c; walk words true body none rest : Work Unit).run.Stepwise
        Told known :=
      Work.stepwise_bind (stepwise_callHandler body c known) fun known _ => ih none known
    cases open_ with
    | none =>
      simp only [walk]
      split
      · exact stepwise_fail rfl known
      · split
        · exact hcall _
        · exact ih _ known
    | some c =>
      simp only [walk]
      split
      · exact hcall _
      · exact ih _ known

theorem stepwise_execute (words : Words) (source : String) (known : FaultId → Prop) :
    (execute words source).run.Stepwise Told known :=
  .op trivial fun list => Work.stepwise_bind (stepwise_walk words list none _ _) fun _ _ => .done (told_ok _ _)

theorem stepwise_closing (wrapping : Bool) {result : Except FaultId Value} (h : Told known result) :
    (closing wrapping result).Stepwise Told known := by
  cases result with
  | ok v => exact .done (told_ok _ _)
  | error id =>
    cases wrapping with
    | false => exact .done h
    | true =>
      refine .op trivial fun fault => ?_
      split
      · exact .op rfl fun wrapped => .op trivial fun _ => .op trivial fun _ =>
          .done (told_error (.inl (.inl (.inr rfl))))
      · exact .done (told_error (.inl (h id rfl)))

theorem stepwise_interpret (wrapping : Bool) (words : Words) (source : String) (known : FaultId → Prop) :
    (interpret wrapping words source).run.Stepwise Told known := by
  rw [run_interpret]
  exact (stepwise_execute words source known).bind fun _ _ => stepwise_closing wrapping

end Words

/-- Every interpreter runs its programs step by step. -/
theorem Interpreter.program_stepwise (i : Interpreter) (source : String) (known : FaultId → Prop) :
    (i.program source).run.Stepwise Told known := by
  unfold program
  split
  · exact Words.stepwise_interpret true _ source known
  · exact Words.stepwise_execute _ source known

end SteppedLogo
