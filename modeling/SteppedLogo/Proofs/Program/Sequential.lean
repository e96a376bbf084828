import SteppedLogo.Proofs.Program.Pacing

namespace SteppedLogo

namespace Routine

variable {α β : Type}

/-- What has yet to be waited for, after a call boundary has been made or refused. -/
def heldBy : Except FaultId Step → Option FutureId
  | .ok step => some step.future
  | .error _ => none

/-- No call boundary is made while another one has yet to be waited for, `held` being the future of the
one that has; `Q` holds of what is held, and of the result, at the end. -/
def Sequential (Q : Option FutureId → α → Prop) : Option FutureId → Routine α → Prop
  | held, done a => Q held a
  | held, op (.hook _) k => held = none ∧ ∀ reply, (k reply).Sequential Q (heldBy reply)
  | held, op _ k => ∀ reply, (k reply).Sequential Q held
  | held, await w k => ∀ received, (k received).Sequential Q (if w = held then none else held)

theorem sequential_op {Q : Option FutureId → α → Prop} {held : Option FutureId} {o : Op} {k : o.Reply → Routine α}
    (hquiet : o.IsQuiet) : (op o k).Sequential Q held ↔ ∀ reply, (k reply).Sequential Q held := by
  cases o with
  | hook => cases hquiet
  | _ => exact Iff.rfl

theorem Sequential.bind {Q : Option FutureId → α → Prop} {R : Option FutureId → β → Prop} {r : Routine α}
    {f : α → Routine β} {held : Option FutureId} (hr : r.Sequential Q held)
    (hf : ∀ held a, Q held a → (f a).Sequential R held) : (r.bind f).Sequential R held := by
  induction r generalizing held with
  | done a => exact hf held a hr
  | op o k ih =>
    cases o with
    | hook call => exact ⟨hr.1, fun reply => ih reply (hr.2 reply)⟩
    | _ => exact fun reply => ih reply (hr reply)
  | await w k ih => exact fun received => ih received (hr received)

end Routine

namespace Words

end Words

end SteppedLogo
