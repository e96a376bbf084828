import SteppedLogo.Proofs.Fault.Report
import SteppedLogo.Proofs.World.Change

namespace SteppedLogo

variable {α β : Type} {env : Env} {answer : (o : Op) → World → o.Reply × World} {w v : World} {fault : FaultId}

/-- What is raised as described is an error. -/
def FaultSpec.IsError : FaultSpec → Prop
  | plain c => c.kind.isError = true
  | cancellation _ | program _ => True

/-- If a deed raises a fault of its own, it is an error. -/
def Deed.RaisesError : Deed → Prop
  | raise spec => spec.IsError
  | _ => True

theorem FaultSpec.IsError.raise {spec : FaultSpec} (hspec : spec.IsError) (fs : Faults) :
    ((spec.raise fs).2.kindOf (spec.raise fs).1).isError = true := by
  cases spec with
  | plain c => exact (congrArg FaultKind.isError (Faults.kindOf_add fs _)).trans hspec
  | cancellation reason => exact congrArg FaultKind.isError (Faults.kindOf_add fs _)
  | program inner => exact congrArg FaultKind.isError (Faults.kindOf_add (inner.raise fs).2 _)

/-- A step with arguments is refused for an error, unless a listener stops it. -/
theorem World.takeStep_isError {notify : Notify} (hnotify : ∀ event w, (notify event w).1 = .ok ()) {call : Call}
    {args : List Value} (hargs : call.args.items = .ok args) (h : w.takeStep notify call = (.error fault, v)) :
    (v.faults.kindOf fault).isError = true := by
  unfold takeStep announceStep at h
  cases hpending : w.gate.pending with
  | some id =>
    rw [hpending] at h
    cases h
    exact congrArg FaultKind.isError (Faults.kindOf_add w.faults _)
  | none =>
    simp only [hpending, hargs] at h
    split at h
    · next hstops =>
      have hgoes := congrArg Prod.fst hstops
      rw [hnotify] at hgoes
      cases hgoes
    · cases h

theorem World.start_isError {program : Work Value} {source : String} (h : w.start program source = (.error fault, v)) :
    (v.faults.kindOf fault).isError = true := by
  unfold start at h
  dsimp only at h
  split at h
  · cases h
    exact congrArg FaultKind.isError (Faults.kindOf_add w.faults _)
  · cases h

theorem World.setPacing_isError {seconds : Float} (h : w.setPacing seconds = (.error fault, v)) :
    (v.faults.kindOf fault).isError = true := by
  unfold setPacing at h
  split at h
  · cases h
    exact congrArg FaultKind.isError (Faults.kindOf_add w.faults _)
  · cases h

theorem Code.run_bind (c : Code α) (f : α → Code β) (w : World) :
    (c.bind f).run answer w = (f (c.run answer w).1).run answer (c.run answer w).2 := by
  induction c generalizing w with
  | done a => rfl
  | op o k ih => exact ih _ _

/-- Code that lets out nothing but errors. -/
def LetsErrors (answer : (o : Op) → World → o.Reply × World) (x : ExceptT FaultId Code α) : Prop :=
  ∀ w fault v, x.run.run answer w = (.error fault, v) → (v.faults.kindOf fault).isError = true

namespace LetsErrors

theorem perform (o : Op) : LetsErrors answer (Reaction.perform o) := by
  intro w fault v h
  cases h

theorem done (a : α) : LetsErrors answer (pure a) := by
  intro w fault v h
  cases h

theorem bind {x : ExceptT FaultId Code α} {f : α → ExceptT FaultId Code β} (hx : LetsErrors answer x)
    (hf : ∀ a, LetsErrors answer (f a)) : LetsErrors answer (x >>= f) := by
  intro w fault v h
  have hrun : (x >>= f).run.run answer w =
      (ExceptT.bindCont f (x.run.run answer w).1).run answer (x.run.run answer w).2 := Code.run_bind x.run _ w
  rw [hrun] at h
  match heq : x.run.run answer w with
  | (.ok a, u) =>
    rw [heq] at h
    exact hf a u fault v h
  | (.error e, u) =>
    rw [heq] at h
    cases h
    exact hx w fault u heq

variable {notify : World.Notify}

/-- Where no listener stops a step, what the deeds of listeners let out are errors. -/
theorem deed (hnotify : ∀ event w, (notify event w).1 = .ok ()) {d : Deed} (hd : d.RaisesError) :
    LetsErrors (World.performWith env notify) d.code := by
  cases d with
  | raise spec =>
    intro w fault v h
    cases h
    exact hd.raise w.faults
  | step func =>
    refine bind (fun w fault v h => ?_) fun _ => done ()
    have hargs : Value.items ({ func : Call }).args = .ok [] := rfl
    exact World.takeStep_isError hnotify hargs h
  | start source => exact bind (fun w fault v h => World.start_isError h) fun future => perform _
  | setPacing seconds => exact fun w fault v h => World.setPacing_isError h
  | cancelGate | cancelRun | interrupt => exact bind (perform _) fun _ => perform _
  | cancelTask => exact bind (perform _) fun _ => done ()
  | requestBreak | add | remove | setInterval | release | setTrace | report => exact perform _

theorem act (hnotify : ∀ event w, (notify event w).1 = .ok ()) {a : Act} (ha : a.deed.RaisesError) :
    LetsErrors (World.performWith env notify) a.code := by
  unfold Act.code
  split
  · exact deed hnotify ha
  · exact perform _
  · exact perform _

theorem acts (hnotify : ∀ event w, (notify event w).1 = .ok ()) (listener : String) (event : StepEvent) {as : List Act}
    (has : ∀ a ∈ as, a.deed.RaisesError) (index : Nat) :
    LetsErrors (World.performWith env notify) (actsCode listener event index as) := by
  induction as generalizing index with
  | nil => exact done ()
  | cons a rest ih =>
    obtain ⟨ha, hrest⟩ := List.forall_mem_cons.1 has
    have hact : LetsErrors (World.performWith env notify) a.code := act hnotify ha
    unfold actsCode
    split
    · split
      · refine bind (perform _) fun first => ?_
        split
        · exact bind hact fun _ => ih hrest (index + 1)
        · exact ih hrest (index + 1)
      · exact bind hact fun _ => ih hrest (index + 1)
    · exact ih hrest (index + 1)

end LetsErrors

/-- Listeners that let out nothing but errors while no other one stops a step never stop one. -/
theorem raisesErrors_of_lets (hreact : ∀ notify, (∀ event w, (notify event w).1 = .ok ()) →
    ∀ name event, LetsErrors (World.performWith env notify) (env.react name event)) : env.RaisesErrors := by
  intro depth
  -- the steps that a listener takes are told one level down
  induction depth with
  | zero => exact fun name event => hreact _ World.notifyNone_ok name event
  | succ depth ih =>
    refine fun name event => hreact _ (fun event w => ?_) name event
    exact World.tellEach_ok (fun name u fault v heq => ih name event u fault v heq) _ w

end SteppedLogo
