import SteppedLogo.Launch
import SteppedLogo.Proofs.Fault.Paired
import SteppedLogo.Proofs.Program.Pacing
import SteppedLogo.Proofs.Program.Wrapping

namespace SteppedLogo

/-- What has been written once `World.print` is called: the line is among it if the sink accepts it. -/
def Output.print (o : Output) (category text : String) : Output :=
  { o with
    calls := o.calls + 1
    records := if o.accepts o.calls then o.records.push (.line category text) else o.records }

/-- What has been written once `World.write` is called. -/
def Output.write (o : Output) (r : Record) : Output := { o with records := o.records.push r }

/-- How far two sessions may differ that go on side by side. The first one has taken some `steps` and made some `runs`
more before; its runs are compared with those of the second from `first` on there, and the run that has the number 1 in the
second has the given `number` in the first. Its view may show a tree that was `left` behind, as long as nothing has been
shown in either; it is `early` then. Where the first session `recounts`, the same is recorded of listeners in both. What
the two write out is related by `Prints`, which printing and writing keep, also where a tree that was left behind is
written early in the first one alone. -/
structure Skew where
  steps : Nat
  runs : Nat
  first : RunId
  number : Nat
  left : Option ViewNode
  recounts : Prop
  Prints (early : Bool) : Output → Output → Prop
  print : ∀ {early : Bool} {o o' : Output} {s t : String} (category : String), Renumbered number s t → Prints early o o' →
    Prints early (o.print category s) (o'.print category t)
  write : ∀ {early : Bool} {o o' : Output} (r : Record), Prints early o o' → Prints early (o.write r) (o'.write r)
  stale : ∀ {o o' : Output} (seq : Option Nat), left.isSome = true → Prints true o o' →
    Prints true (o.write (.trace seq left)) o'
  settles : ∀ {o o' : Output}, Prints true o o' → Prints false o o'

variable {α β : Type} {σ : Skew} {T U : Pairing}

/-- The same result, or faults that are paired. -/
inductive Pairing.Told (T : Pairing) : Except FaultId α → Except FaultId α → Prop
  | ok (a : α) : T.Told (.ok a) (.ok a)
  | error {a b : FaultId} (hab : T a b) : T.Told (.error a) (.error b)

/-- Results that are told of alike stay so when more faults are paired. -/
theorem Pairing.Told.mono {x y : Except FaultId α} (h : T.Told x y) (hle : T ≤ U) : U.Told x y := by
  cases h with
  | ok a => exact .ok a
  | error hab => exact .error (hle _ _ hab)

/-- The same step, which each session keeps under its own number, or a refusal with paired faults. -/
inductive Pairing.Taken (T : Pairing) (σ : Skew) : Except FaultId Step → Except FaultId Step → Prop
  | taken (i : StepId) (seq : Nat) (future : FutureId) : T.Taken σ (.ok ⟨i + σ.steps, seq, future⟩) (.ok ⟨i, seq, future⟩)
  | refused {a b : FaultId} (hab : T a b) : T.Taken σ (.error a) (.error b)

namespace Op

/-- Operations that name no fault and no step, and do not ask what listeners have done. A fault may be named where it is
the same in both sessions, and a step where it has the same number. -/
def IsPublic (σ : Skew) : Op → Prop
  | spend .. | describe _ | setCause .. | raiseWhile .. => σ.recounts
  | cancelStep .. => σ.steps = 0
  | _ => True

/-- Two answers that differ at most in the identities of faults and in the number under which a step is kept. -/
def Told (σ : Skew) (T : Pairing) : (o : Op) → o.Reply → o.Reply → Prop
  | hook _, taken, taken' => T.Taken σ taken taken'
  | step _, taken, taken' => T.Taken σ taken taken'
  | setPacing _, done, done' => T.Told done done'
  | start _, started, started' => T.Told started started'
  | invoke .., result, result' => T.Told result result'
  | hookInterrupt _, hooked, hooked' => T.Told hooked hooked'
  | raise _, id, id' => T id id'
  | describe _, f, g => Fault.Paired σ.number T f g
  | _, reply, reply' => reply = reply'

end Op

namespace Routine

/-- Two routines that go on alike as long as they are told alike, and come to results that are related by `R`. More faults
may be paired by then. What they log is not compared. -/
inductive Abreast (σ : Skew) (R : Pairing → α → α → Prop) : Pairing → Routine α → Routine α → Prop
  | done {T : Pairing} {a b : α} (hab : R T a b) : Abreast σ R T (.done a) (.done b)
  | op {T : Pairing} {o : Op} {k k' : o.Reply → Routine α} (ho : o.IsPublic σ)
    (hk : ∀ U reply reply', T ≤ U → o.Told σ U reply reply' → Abreast σ R U (k reply) (k' reply')) :
    Abreast σ R T (.op o k) (.op o k')
  | cancelStep {T : Pairing} {i : StepId} {reason : Value} {k k' : Bool → Routine α}
    (hk : ∀ U cancelled, T ≤ U → Abreast σ R U (k cancelled) (k' cancelled)) :
    Abreast σ R T (.op (.cancelStep (i + σ.steps) reason) k) (.op (.cancelStep i reason) k')
  | describe {T : Pairing} {id id' : FaultId} {k k' : Fault → Routine α} (hid : T id id')
    (hk : ∀ f g, f.Paired σ.number T g → Abreast σ R T (k f) (k' g)) :
    Abreast σ R T (.op (.describe id) k) (.op (.describe id') k')
  | setCause {T : Pairing} {id id' cause cause' : FaultId} {k k' : Unit → Routine α} (hid : T id id')
    (hcause : T cause cause') (hk : Abreast σ R T (k ()) (k' ())) :
    Abreast σ R T (.op (.setCause id cause) k) (.op (.setCause id' cause') k')
  | raiseWhile {T : Pairing} {handled handled' id id' : FaultId} {k k' : Unit → Routine α} (hhandled : T handled handled')
    (hid : T id id') (hk : Abreast σ R T (k ()) (k' ())) :
    Abreast σ R T (.op (.raiseWhile handled id) k) (.op (.raiseWhile handled' id') k')
  | print {T : Pairing} {category s t : String} {k k' : Unit → Routine α} (htext : Renumbered σ.number s t)
    (hk : Abreast σ R T (k ()) (k' ())) : Abreast σ R T (.op (.print category s) k) (.op (.print category t) k')
  | log {T : Pairing} {level level' : Level} {logger logger' message message' : String} {fault fault' : Option FaultId}
    {k k' : Unit → Routine α} (hk : Abreast σ R T (k ()) (k' ())) :
    Abreast σ R T (.op (.log level logger message fault) k) (.op (.log level' logger' message' fault') k')
  | await {T : Pairing} {future : Option FutureId} {k k' : Except FaultId Value → Routine α}
    (hk : ∀ U received received', T ≤ U → U.Told received received' → Abreast σ R U (k received) (k' received')) :
    Abreast σ R T (.await future k) (.await future k')

/-- Two routines that go abreast, followed by routines that do for all results told of alike, go abreast. -/
theorem Abreast.bind {R : Pairing → α → α → Prop} {S : Pairing → β → β → Prop} {r r' : Routine α} {f f' : α → Routine β}
    (h : r.Abreast σ R T r') (hf : ∀ U a b, T ≤ U → R U a b → (f a).Abreast σ S U (f' b)) :
    (r.bind f).Abreast σ S T (r'.bind f') := by
  induction h with
  | done hab => exact hf _ _ _ (fun _ _ h => h) hab
  | op ho _ ih =>
    refine .op ho fun U reply reply' hle htold => ih U reply reply' hle htold fun V a b hle' => ?_
    exact hf V a b fun c d hcd => hle' c d (hle c d hcd)
  | cancelStep _ ih =>
    refine .cancelStep fun U cancelled hle => ih U cancelled hle fun V a b hle' => ?_
    exact hf V a b fun c d hcd => hle' c d (hle c d hcd)
  | describe hid _ ih => exact .describe hid fun f g hfg => ih f g hfg hf
  | setCause hid hcause _ ih => exact .setCause hid hcause (ih hf)
  | raiseWhile hhandled hid _ ih => exact .raiseWhile hhandled hid (ih hf)
  | print htext _ ih => exact .print htext (ih hf)
  | log _ ih => exact .log (ih hf)
  | await _ ih =>
    refine .await fun U received received' hle htold => ih U received received' hle htold fun V a b hle' => ?_
    exact hf V a b fun c d hcd => hle' c d (hle c d hcd)

/-- A routine that goes on alike wherever it is told alike, whatever the faults and the steps are known as. -/
def Steady (σ : Skew) (r : Routine (Except FaultId α)) : Prop := ∀ T, r.Abreast σ Pairing.Told T r

end Routine

namespace Work

variable {x : Work α} {f : α → Work β}

/-- What follows on something steady and is steady itself is steady with it. -/
theorem steady_bind (hx : x.run.Steady σ) (hf : ∀ a, (f a).run.Steady σ) : (x >>= f).run.Steady σ := by
  intro T
  rw [run_bind]
  refine (hx T).bind fun U result result' _ htold => ?_
  cases htold with
  | ok a => exact hf a U
  | error hab => exact .done (.error hab)

theorem steady_pure (a : α) : (pure a : Work α).run.Steady σ := fun _ => .done (.ok a)

/-- A public operation whose replies are the same in both worlds goes abreast with itself. -/
theorem steady_perform {o : Op} (ho : o.IsPublic σ) (hexact : ∀ T reply reply', o.Told σ T reply reply' → reply = reply') :
    (Work.perform o).run.Steady σ := by
  refine fun T => .op ho fun U reply reply' _ htold => ?_
  rw [hexact U reply reply' htold]
  exact .done (.ok _)

theorem steady_fail (spec : FaultSpec) : (Work.fail spec : Work α).run.Steady σ :=
  fun _ => .op trivial fun _ _ _ _ hab => .done (.error hab)

end Work

namespace Words

/-- The wait at a call boundary goes abreast with itself. -/
theorem steady_awaitBoundary (body : LogoList) (c : OpenCall) : (awaitBoundary body c).run.Steady σ := by
  refine fun T => .op trivial fun U taken taken' _ htaken => ?_
  cases htaken with
  | refused hab => exact .done (.error hab)
  | taken i seq future =>
    refine .await fun V received received' _ htold => ?_
    cases htold with
    | ok => exact .done (.ok ())
    | error hab => exact .done (.error hab)

/-- The call of a handler goes abreast with itself. -/
theorem steady_callHandler (gated : Bool) (body : LogoList) (c : OpenCall) : (callHandler gated body c).run.Steady σ := by
  have hcalled : (do
      Work.perform (.recordCall c.word c.args)
      let _ ← Work.attempt (Routine.perform (.invoke c.handler c.args)) : Work Unit).run.Steady σ := by
    refine Work.steady_bind (Work.steady_perform trivial fun _ _ _ hsame => hsame) fun _ => ?_
    exact Work.steady_bind (fun T => .op trivial fun U _ _ _ htold => .done htold) fun _ => Work.steady_pure ()
  unfold callHandler
  cases gated with
  | true => exact Work.steady_bind (steady_awaitBoundary body c) fun _ => hcalled
  | false => exact hcalled

/-- The walk over a body goes abreast with itself. -/
theorem steady_walk (words : Words) (gated : Bool) (body : LogoList) (open_ : Option OpenCall) (cells : List Cell) :
    (walk words gated body open_ cells).run.Steady σ := by
  apply walk_induction (M := fun x => x.run.Steady σ)
  · exact Work.steady_pure ()
  · exact Work.steady_fail
  · intro c rest hrest
    exact Work.steady_bind (steady_callHandler gated body c) fun _ => hrest

/-- A program of words goes on alike, whatever its words are. -/
theorem steady_execute (words : Words) (source : String) : (execute words source).run.Steady σ := by
  refine Work.steady_bind (Work.steady_perform trivial fun _ _ _ hsame => hsame) fun body => ?_
  exact Work.steady_bind (steady_walk words true body none _) fun _ => Work.steady_pure _

end Words

namespace Host

/-- Hooking interrupts goes abreast with itself, and succeeds on both sides or on neither. -/
theorem abreast_hookInterrupt (T : Pairing) : hookInterrupt.Abreast σ
    (fun _ hooked hooked' => hooked = hooked') T hookInterrupt := by
  refine .op trivial fun U hooked hooked' _ htold => ?_
  cases htold with
  | ok => exact .done rfl
  | error hid => exact .describe hid fun _ _ _ => .log (.done rfl)

/-- The same is reported of a run that failed, but for the number of a run. -/
theorem abreast_report {id id' : FaultId} (hid : T id id') : (report id).Abreast σ Pairing.Told T (report id') := by
  refine .describe hid fun f g hfg => ?_
  obtain ⟨kind, args, reason, inner, cause, context⟩ := f
  obtain ⟨kind', args', reason', inner', cause', context'⟩ := g
  obtain ⟨rfl, -, rfl, hinner, -, -⟩ := hfg
  cases kind with
  | cancellation => exact .op trivial fun _ _ _ _ _ => .done (.ok _)
  | program =>
    cases hinner with
    | none => exact .done (.error hid)
    | some hinner => exact .describe hinner fun _ _ hfg => .log (.print hfg.message (.done (.ok _)))
  | _ => exact .done (.error hid)

/-- `Host.runProgram` goes on alike for any source. -/
theorem steady_runProgram (source : String) : (runProgram source).run.Steady σ := by
  refine fun T => .op trivial fun U _ _ _ _ => .op trivial fun V started started' _ htold => ?_
  cases htold with
  | error hid => exact .describe hid fun _ _ hfg => .print hfg.message (.done (.ok _))
  | ok future =>
    refine (abreast_hookInterrupt V).bind fun _ hooked hooked' _ heq => .await fun X received received' _ htold => ?_
    subst heq
    have hleaves (Y : Pairing) (exit exit' : Except FaultId Exit) (hexit : Y.Told exit exit') :
        Routine.Abreast σ Pairing.Told Y
          (do
            if hooked then Routine.perform .unhookInterrupt
            return exit)
          (do
            if hooked then Routine.perform .unhookInterrupt
            return exit') := by
      cases hooked with
      | true => exact .op trivial fun _ _ _ hle _ => .done (hexit.mono hle)
      | false => exact .done hexit
    cases htold with
    | ok => exact hleaves X _ _ (.ok _)
    | error hid => exact (abreast_report hid).bind fun Y _ _ _ hexit => hleaves Y _ _ hexit

end Host

/-- The run of a program from the command line goes abreast with itself. -/
theorem Launch.steady_runProgram (source : String) : (Launch.runProgram source).run.Steady σ :=
  Work.steady_bind (Host.steady_runProgram source) fun _ => Work.steady_pure _

/-- What is done for a deed goes on alike. -/
theorem Deed.steady (d : Deed) : d.code.run.toRoutine.Steady σ := by
  intro T
  cases d with
  | cancelGate | interrupt =>
    refine .op trivial fun _ _ _ _ hsame => ?_
    cases hsame
    exact .op trivial fun _ _ _ _ _ => .done (.ok _)
  | cancelRun => exact .op trivial fun _ _ _ _ _ => .op trivial fun _ _ _ _ _ => .done (.ok _)
  | raise spec => exact .op trivial fun _ _ _ _ hid => .done (.error hid)
  | setPacing =>
    refine .op trivial fun _ _ _ _ htold => ?_
    cases htold with
    | ok => exact .done (.ok _)
    | error hid => exact .done (.error hid)
  | step =>
    refine .op trivial fun _ _ _ _ htaken => ?_
    cases htaken with
    | taken => exact .done (.ok _)
    | refused hid => exact .done (.error hid)
  | start source =>
    refine .op trivial fun _ _ _ _ htold => ?_
    cases htold with
    | ok future => exact .op trivial fun _ _ _ _ _ => .done (.ok _)
    | error hid => exact .done (.error hid)
  | requestBreak | add | remove | setInterval | release | setTrace | cancelTask | report =>
    exact .op trivial fun _ _ _ _ _ => .done (.ok _)

namespace Code

/-- The routine of code that goes on is that of its first part, going on. -/
theorem toRoutine_bind (c : Code α) (f : α → Code β) : (c.bind f).toRoutine = c.toRoutine.bind fun a => (f a).toRoutine := by
  induction c with
  | done a => rfl
  | op o k ih => exact congrArg (Routine.op o) (funext ih)

end Code

namespace Reaction

/-- Code of a listener that goes on alike wherever it is told alike. -/
def Steady (σ : Skew) (x : ExceptT FaultId Code α) : Prop := x.run.toRoutine.Steady σ

theorem steady_bind {x : ExceptT FaultId Code α} {f : α → ExceptT FaultId Code β} (hx : Steady σ x)
    (hf : ∀ a, Steady σ (f a)) : Steady σ (x >>= f) := by
  intro T
  have hbind : (x >>= f).run.toRoutine = x.run.toRoutine.bind fun result => (ExceptT.bindCont f result).toRoutine :=
    Code.toRoutine_bind x.run (ExceptT.bindCont f)
  rw [hbind]
  refine (hx T).bind fun U result result' _ htold => ?_
  cases htold with
  | ok a => exact hf a U
  | error hab => exact .done (.error hab)

theorem steady_pure (a : α) : Steady σ (pure a) := fun _ => .done (.ok a)

/-- A public operation of a reaction whose replies are the same in both worlds goes abreast with itself. -/
theorem steady_perform {o : Op} (ho : o.IsPublic σ) (hexact : ∀ T reply reply', o.Told σ T reply reply' → reply = reply') :
    Steady σ (Reaction.perform o) := by
  refine fun T => .op ho fun U reply reply' _ htold => ?_
  rw [hexact U reply reply' htold]
  exact .done (.ok _)

end Reaction

/-- Every act of a listener goes abreast with itself. -/
theorem Act.steady (a : Act) : Reaction.Steady σ a.code := by
  unfold Act.code
  split
  · exact Deed.steady a.deed
  · exact Reaction.steady_perform trivial fun _ _ _ hsame => hsame
  · exact Reaction.steady_perform trivial fun _ _ _ hsame => hsame

section

variable (hrecounts : σ.recounts)

include hrecounts

/-- The acts of a listener, one after the other, go abreast with themselves. -/
theorem steady_actsCode (listener : String) (event : StepEvent) (index : Nat) (acts : List Act) :
    Reaction.Steady σ (actsCode listener event index acts) := by
  induction acts generalizing index with
  | nil => exact Reaction.steady_pure ()
  | cons a rest ih =>
    unfold actsCode
    split
    · split
      · refine Reaction.steady_bind (Reaction.steady_perform hrecounts fun _ _ _ hsame => hsame) fun first => ?_
        split
        · exact Reaction.steady_bind a.steady fun _ => ih (index + 1)
        · exact ih (index + 1)
      · exact Reaction.steady_bind a.steady fun _ => ih (index + 1)
    · exact ih (index + 1)

/-- A listener made of acts goes on alike, where the same is recorded of listeners in both sessions. -/
theorem steady_listenerCode (listener : String) (acts : List Act) (event : StepEvent) :
    Reaction.Steady σ (listenerCode listener acts event) :=
  Reaction.steady_bind (Reaction.steady_perform trivial fun _ _ _ hsame => hsame) fun _ =>
    steady_actsCode hrecounts listener event 0 acts

end

/-- The listener of the console goes on alike. -/
theorem Launch.steady_react (name : String) (event : StepEvent) : Reaction.Steady σ (Launch.react name event) := by
  by_cases hname : name = Launch.traceListener
  · have hshows : Launch.react name event = Reaction.perform (.showTrace event) := if_pos hname
    rw [hshows]
    exact Reaction.steady_perform trivial fun _ _ _ hsame => hsame
  · have hnothing : Launch.react name event = pure () := if_neg hname
    rw [hnothing]
    exact Reaction.steady_pure ()

end SteppedLogo
