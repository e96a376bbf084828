import SteppedLogo.Proofs.Program.Wrapping

namespace SteppedLogo

/-- What an operation adds to the timers that may be stopped. -/
def Op.gains : (o : Op) → o.Reply → (TimerId → Prop) → TimerId → Prop
  | .nap _, reply, own => fun timer => timer = reply.2 ∨ own timer
  | _, _, own => own

/-- Whether an operation may stop the timer that it stops, if it stops one by its number. -/
def Op.Stops (own : TimerId → Prop) : Op → Prop
  | .dropTimer timer => own timer
  | _ => True

theorem Op.KeepsTimers.stops {o : Op} (h : o.KeepsTimers) (own : TimerId → Prop) : o.Stops own := by
  cases o with
  | dropTimer => cases h
  | _ => trivial

theorem Op.Stops.mono {o : Op} {own own' : TimerId → Prop} (himp : ∀ timer, own timer → own' timer) (h : o.Stops own) :
    o.Stops own' := by
  cases o with
  | dropTimer timer => exact himp timer h
  | _ => trivial

theorem Op.gains_mono {o : Op} {reply : o.Reply} {own own' : TimerId → Prop} (himp : ∀ timer, own timer → own' timer)
    (timer : TimerId) (h : o.gains reply own timer) : o.gains reply own' timer := by
  cases o with
  | nap => exact h.imp_right (himp timer)
  | _ => exact himp timer h

namespace Routine

variable {α β : Type} {own own' : TimerId → Prop}

/-- Of all timers none is stopped by its number but those in `own`, and those of the naps that are taken. -/
def StopsOwn : (TimerId → Prop) → Routine α → Prop
  | _, done _ => True
  | own, op o k => o.Stops own ∧ ∀ reply, (k reply).StopsOwn (o.gains reply own)
  | own, await _ k => ∀ received, (k received).StopsOwn own

theorem StopsOwn.mono (himp : ∀ timer, own timer → own' timer) {r : Routine α} (hr : r.StopsOwn own) : r.StopsOwn own' := by
  induction r generalizing own own' with
  | done a => trivial
  | op o k ih => exact ⟨hr.1.mono himp, fun reply => ih reply (Op.gains_mono himp) (hr.2 reply)⟩
  | await w k ih => exact fun received => ih received himp (hr received)

/-- Who stops no timer by its number stops none but its own. -/
theorem All.stopsOwn {r : Routine α} (hr : r.All Op.KeepsTimers) (own : TimerId → Prop) : r.StopsOwn own := by
  induction r generalizing own with
  | done a => trivial
  | op o k ih => exact ⟨hr.1.stops own, fun reply => ih reply (hr.2 reply) _⟩
  | await w k ih => exact fun received => ih received (hr received) own

end Routine

/-- A program of words stops no timers. -/
theorem Words.interpret_keepsTimers (wrapping : Bool) (words : Words) (source : String) :
    (interpret wrapping words source).run.All Op.KeepsTimers := by
  have hexecute : (execute words source).run.All Op.KeepsTimers := by
    apply all_execute <;> intros <;> trivial
  rw [run_interpret]
  refine hexecute.bind fun result => ?_
  apply all_closing <;> intros <;> trivial

/-- No deed stops a timer by its number. -/
theorem Deed.code_keepsTimers (d : Deed) : d.code.run.All Op.KeepsTimers := by
  refine d.code_performs.imp fun o ho => ?_
  cases o with
  | dropTimer => cases ho
  | _ => trivial

theorem Act.code_keepsTimers (a : Act) : a.code.run.All Op.KeepsTimers := by
  unfold code
  split
  · exact a.deed.code_keepsTimers
  · exact ⟨trivial, fun _ => trivial⟩
  · exact ⟨trivial, fun _ => trivial⟩

theorem Reaction.all_bind {α β : Type} {P : Op → Prop} {x : ExceptT FaultId Code α} {f : α → ExceptT FaultId Code β}
    (hx : x.run.All P) (hf : ∀ a, (f a).run.All P) : (x >>= f).run.All P := by
  refine Code.All.bind (c := x.run) (f := ExceptT.bindCont f) hx fun result => ?_
  cases result with
  | ok a => exact hf a
  | error fault => trivial

/-- A listener made of acts stops no timers. -/
theorem listenerCode_keepsTimers (listener : String) (acts : List Act) (event : StepEvent) :
    (listenerCode listener acts event).run.All Op.KeepsTimers := by
  have hacts (index : Nat) : (actsCode listener event index acts).run.All Op.KeepsTimers := by
    induction acts generalizing index with
    | nil => trivial
    | cons a rest ih =>
      unfold actsCode
      split
      · split
        · refine Reaction.all_bind ⟨trivial, fun _ => trivial⟩ fun first => ?_
          split
          · exact Reaction.all_bind a.code_keepsTimers fun _ => ih (index + 1)
          · exact ih (index + 1)
        · exact Reaction.all_bind a.code_keepsTimers fun _ => ih (index + 1)
      · exact ih (index + 1)
  exact Reaction.all_bind ⟨trivial, fun _ => trivial⟩ fun _ => hacts 0

end SteppedLogo
