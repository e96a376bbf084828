import SteppedLogo.Proofs.Program.Operations
import SteppedLogo.Program.Words

namespace SteppedLogo

/-- What a program may do about its next call. -/
inductive Grip
  /-- it has yet to make a call boundary -/
  | free
  /-- it has made one, and has yet to wait for this future -/
  | held (future : FutureId)
  /-- it has waited for one, and may call -/
  | cleared

namespace Grip

/-- The grip after an operation. -/
def after (g : Grip) : (o : Op) → o.Reply → Grip
  | .hook _, .ok step => .held step.future
  | .invoke .., _ => .free
  | _, _ => g

/-- The grip after waiting. -/
def received (awaited : Option FutureId) (received : Except FaultId Value) : Grip → Grip
  | held future => if awaited = some future then (if received.isOk then cleared else free) else held future
  | g => g

@[simp]
theorem received_held_ok (future : FutureId) (v : Value) :
    (held future).received (some future) (.ok v) = cleared := by
  simp only [received, if_true]
  rfl

@[simp]
theorem received_held_error (future : FutureId) (fault : FaultId) :
    (held future).received (some future) (.error fault) = free := by
  simp only [received, if_true]
  rfl

end Grip

/-- Only behind a call boundary may a word be called. -/
def Op.Permitted (g : Grip) : Op → Prop
  | invoke .. => g = .cleared
  | _ => True

namespace Routine

variable {α β : Type}

/-- Every call stands behind a call boundary of its own that has been waited for; `Q` holds of the
grip and the result at the end. -/
def Paced (Q : Grip → α → Prop) : Grip → Routine α → Prop
  | g, done a => Q g a
  | g, op o k => o.Permitted g ∧ ∀ reply, (k reply).Paced Q (g.after o reply)
  | g, await w k => ∀ received, (k received).Paced Q (g.received w received)

theorem Paced.bind {Q : Grip → α → Prop} {R : Grip → β → Prop} {r : Routine α} {f : α → Routine β}
    {g : Grip} (hr : r.Paced Q g) (hf : ∀ g a, Q g a → (f a).Paced R g) : (r.bind f).Paced R g := by
  induction r generalizing g with
  | done a => exact hf g a hr
  | op o k ih => exact ⟨hr.1, fun reply => ih reply (hr.2 reply)⟩
  | await w k ih => exact fun received => ih received (hr received)

end Routine

namespace Work

variable {α β : Type} {x : Work α} {f : α → Work β}

theorem run_bind (x : Work α) (f : α → Work β) : (x >>= f).run = x.run.bind fun result =>
    match result with
    | .ok a => (f a).run
    | .error fault => .done (.error fault) := by
  change x.run.bind (ExceptT.bindCont f) = _
  congr 1
  funext result
  cases result <;> rfl

theorem paced_bind {Q : Grip → Except FaultId α → Prop} {R : Grip → Except FaultId β → Prop} {g : Grip}
    (hx : x.run.Paced Q g) (hok : ∀ g a, Q g (.ok a) → (f a).run.Paced R g)
    (herror : ∀ g fault, Q g (.error fault) → R g (.error fault)) : (x >>= f).run.Paced R g := by
  rw [run_bind]
  refine hx.bind fun g result hresult => ?_
  cases result with
  | ok a => exact hok g a hresult
  | error fault => exact herror g fault hresult

theorem all_bind {P : Op → Prop} (hx : x.run.All P) (hf : ∀ a, (f a).run.All P) :
    (x >>= f).run.All P := by
  rw [run_bind]
  refine hx.bind fun result => ?_
  cases result with
  | ok a => exact hf a
  | error fault => trivial

end Work

namespace Words

variable {words : Words} {body : LogoList} {c : OpenCall}

/-- A gated call stands behind its call boundary, and leaves nothing in the grip. -/
theorem paced_callHandler (body : LogoList) (c : OpenCall) :
    (callHandler true body c).run.Paced (fun g _ => g = .free) .free := by
  refine ⟨trivial, fun reply => ?_⟩
  cases reply with
  | error fault => rfl
  | ok step =>
    intro received
    cases received with
    | error fault => exact Grip.received_held_error step.future fault
    | ok v =>
      refine ⟨trivial, fun _ => ⟨Grip.received_held_ok step.future v, fun reply => ?_⟩⟩
      cases reply <;> rfl

theorem paced_fail {α : Type} (spec : FaultSpec) :
    (Work.fail spec : Work α).run.Paced (fun g _ => g = .free) .free := ⟨trivial, fun _ => rfl⟩

/-- What holds of the ends of a program of words, and of a call before anything of which it holds, holds
of the way through the words. -/
theorem walk_induction {M : Work Unit → Prop} {gated : Bool} (hpure : M (pure ())) (hfail : ∀ spec, M (Work.fail spec))
    (hcall : ∀ (c : OpenCall) (rest : Work Unit), M rest → M (do callHandler gated body c; rest)) (words : Words)
    (open_ : Option OpenCall) (cells : List Cell) : M (walk words gated body open_ cells) := by
  induction cells generalizing open_ with
  | nil =>
    cases open_ with
    | none => exact hpure
    | some c => exact hfail _
  | cons cell rest ih =>
    cases open_ with
    | none =>
      simp only [walk]
      split
      · exact hfail _
      · split
        · exact hcall _ _ (ih none)
        · exact ih _
    | some c =>
      simp only [walk]
      split
      · exact hcall _ _ (ih none)
      · exact ih _

theorem paced_walk (words : Words) (body : LogoList) (open_ : Option OpenCall) (cells : List Cell) :
    (walk words true body open_ cells).run.Paced (fun g _ => g = .free) .free := by
  apply walk_induction (M := fun x => x.run.Paced (fun g _ => g = .free) .free)
  · rfl
  · exact paced_fail
  · intro c rest hrest
    exact Work.paced_bind (paced_callHandler body c) (fun _ _ hg => hg ▸ hrest) fun _ _ hg => hg

/-- A program of words waits for a call boundary before each call. -/
theorem paced_execute (words : Words) (source : String) :
    (execute words source).run.Paced (fun _ _ => True) .free := by
  refine ⟨trivial, fun list => Work.paced_bind (paced_walk words list none _) (fun _ _ _ => ?_) fun _ _ _ => trivial⟩
  trivial

theorem all_walk {P : Op → Prop} {gated : Bool} (hraise : ∀ spec, P (.raise spec))
    (hcall : ∀ body c, (callHandler gated body c).run.All P) (words : Words) (body : LogoList)
    (open_ : Option OpenCall) (cells : List Cell) : (walk words gated body open_ cells).run.All P := by
  apply walk_induction (M := fun x => x.run.All P)
  · trivial
  · exact fun spec => ⟨hraise spec, fun _ => trivial⟩
  · intro c rest hrest
    exact Work.all_bind (hcall body c) fun _ => hrest

/-- What a program of words may perform. -/
theorem all_execute {P : Op → Prop} (hraise : ∀ spec, P (.raise spec)) (hbody : ∀ texts, P (.newBody texts))
    (hhook : ∀ call, P (.hook call)) (hrecord : ∀ word args, P (.recordCall word args))
    (hinvoke : ∀ h args, P (.invoke h args)) (words : Words) (source : String) :
    (execute words source).run.All P := by
  have hcall (body : LogoList) (c : OpenCall) : (callHandler true body c).run.All P := by
    refine ⟨hhook _, fun reply => ?_⟩
    cases reply with
    | error fault => trivial
    | ok step =>
      intro received
      cases received with
      | error fault => trivial
      | ok v =>
        refine ⟨hrecord _ _, fun _ => ⟨hinvoke _ _, fun reply => ?_⟩⟩
        cases reply <;> trivial
  exact ⟨hbody _, fun list => Work.all_bind (all_walk hraise hcall words list none _) fun _ => trivial⟩

/-- A program of words makes its call boundaries through the hook. -/
theorem hooked_execute (words : Words) (source : String) :
    (execute words source).run.All Op.IsHookedOrQuiet :=
  all_execute (fun _ => trivial) (fun _ => trivial) (fun _ => trivial) (fun _ _ => trivial) (fun _ _ => trivial)
    words source

end Words

end SteppedLogo
