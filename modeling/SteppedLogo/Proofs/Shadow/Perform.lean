import SteppedLogo.Proofs.Command.Effect
import SteppedLogo.Proofs.Gate.Outstanding
import SteppedLogo.Proofs.Shadow.Session

namespace SteppedLogo

/-- Two surroundings with the same programs, which go on alike in sessions that differ as `σ` says. -/
structure Env.Agrees (σ : Skew) (env env' : Env) : Prop where
  program : env.program = env'.program
  steady : ∀ source, (env'.program source).run.Steady σ
  signals : env.signals = env'.signals

namespace World

/-- Two ways to tell listeners of a step that come to the same in sessions that differ as `σ` says. -/
def Notifies (σ : Skew) (notify notify' : Notify) : Prop :=
  ∀ (T : Pairing) (e : StepEvent) (w v : World), w.Shadows σ T v →
    AnsweredAlike σ T (fun U : Pairing => U.Told) (notify e w) (notify' e v)

/-- `print` writes what the sink accepts; that it refuses a line is logged. -/
theorem print_writes (w : World) (category text : String) :
    ∃ log, w.print category text = { w with output := w.output.print category text, log } := by
  cases haccepted : w.output.accepts w.output.calls with
  | true => exact ⟨w.log, by simp [World.print, Output.print, haccepted]⟩
  | false => exact ⟨_, by simp [World.print, Output.print, haccepted, addLog]; rfl⟩

namespace Shadows

variable {σ : Skew} {T : Pairing} {w v : World} {env env' : Env} {notify notify' : Notify}

theorem write (h : w.Shadows σ T v) (r : Record) : (w.write r).Shadows σ T (v.write r) :=
  { h with view := h.view.imp (And.imp_right (σ.write r)) (And.imp_right (σ.write r)) }

theorem print (h : w.Shadows σ T v) (category : String) {s t : String} (htext : Renumbered σ.number s t) :
    (w.print category s).Shadows σ T (v.print category t) := by
  obtain ⟨log, hw⟩ := print_writes w category s
  obtain ⟨log', hv⟩ := print_writes v category t
  rw [hw, hv]
  exact { h with view := h.view.imp (And.imp_right (σ.print category htext)) (And.imp_right (σ.print category htext)) }

/-- What the host shows is the same, unless nothing has been shown in either and a tree was left in the first view. -/
theorem shown (h : w.Shadows σ T v) : w.shownView.root = v.shownView.root ∨
    (w.trace.renderer = {} ∧ w.trace.view.root = σ.left ∧ v.trace.view.root = none) ∧ σ.Prints true w.output v.output ∧
      w.shownView.root = σ.left ∧ v.shownView.root = none := by
  rw [shownView, shownView, h.hostView]
  cases v.hostView with
  | some view => exact .inl rfl
  | none => exact h.view.imp And.left fun hearly => ⟨hearly.1, hearly.2, hearly.1.2⟩

/-- `showTrace` writes the same in both, but for a tree that was left behind. -/
theorem showTrace (h : w.Shadows σ T v) (e : StepEvent) : (w.showTrace e).Shadows σ T (v.showTrace e) := by
  unfold World.showTrace
  dsimp only
  rw [h.traceOn]
  cases v.session.traceOn with
  | false => exact h
  | true =>
    obtain hsame | ⟨hblank, hearly, hleft, hnone⟩ := h.shown
    · rw [hsame]
      split
      · exact h.write _
      · exact h
    · rw [hleft, hnone]
      simp only [Bool.true_and, Option.isSome_none, Bool.false_eq_true, if_false]
      split
      · next hsome => exact { h with view := .inr ⟨hblank, σ.stale _ hsome hearly⟩ }
      · exact h

theorem pendingSeq? (h : w.Shadows σ T v) : w.pendingSeq? = v.pendingSeq? := by
  rw [World.pendingSeq?, World.pendingSeq?, h.pending]
  cases v.gate.pending with
  | none => rfl
  | some i => exact congrArg (Option.map PacedStep.seq) (h.pacedStep? i)

theorem addEvent (h : w.Shadows σ T v) {e e' : Event} (he : e = e') : (w.addEvent e).Shadows σ T (v.addEvent e') := by
  subst he
  exact { h with events := fun hrecounts => congrArg (Array.push · e) (h.events hrecounts) }

/-- `announceStep` refuses a step in both, or counts it, shows it and tells the listeners of it in both. -/
theorem announceStep (h : w.Shadows σ T v) (hnotify : Notifies σ notify notify') (call : Call) :
    AnsweredAlike σ T (fun U : Pairing => U.Told) (w.announceStep notify call) (v.announceStep notify' call) := by
  unfold World.announceStep
  rw [h.pending]
  cases v.gate.pending with
  | some i =>
    dsimp only [Option.map_some]
    rw [h.pacedStep?]
    exact h.complain _
  | none =>
    have hcounted : (w.modifyGate fun g => { g with seq := g.seq + 1 }).Shadows σ T
        (v.modifyGate fun g => { g with seq := g.seq + 1 }) := { h with seq := congrArg (· + 1) h.seq }
    have hshown := (hcounted.showCall call).1
    dsimp only [Option.map_none]
    cases call.args.items with
    | error c => exact hshown.complain c
    | ok args =>
      dsimp only
      rw [hshown.seq]
      exact hnotify T _ _ _ hshown

theorem takeStep (h : w.Shadows σ T v) (hnotify : Notifies σ notify notify') (call : Call) :
    AnsweredAlike σ T (fun U : Pairing => U.Taken σ) (w.takeStep notify call) (v.takeStep notify' call) := by
  obtain ⟨U, hle, htold, hannounced⟩ := h.announceStep hnotify call
  unfold World.takeStep
  generalize w.announceStep notify call = x at htold hannounced
  generalize v.announceStep notify' call = y at htold hannounced
  obtain ⟨result, u⟩ := x
  obtain ⟨result', u'⟩ := y
  cases htold with
  | error hid => exact ⟨U, hle, .refused hid, hannounced⟩
  | ok =>
    obtain ⟨hstep, hinstalled⟩ := hannounced.installStep
    dsimp only
    rw [hstep]
    exact ⟨U, hle, .taken _ _ _, hinstalled⟩

theorem hook (h : w.Shadows σ T v) (hnotify : Notifies σ notify notify') (call : Call) :
    AnsweredAlike σ T (fun U : Pairing => U.Taken σ) (w.hook notify call) (v.hook notify' call) := by
  obtain ⟨hcurrent, hfirst⟩ := h.current
  unfold World.hook
  dsimp only
  rw [h.traceOn, hcurrent]
  generalize (if v.session.traceOn = true then call else { call with body := .none }) = call
  obtain ⟨U, hle, htold, hannounced⟩ := h.announceStep hnotify call
  generalize w.announceStep notify call = x at htold hannounced
  generalize v.announceStep notify' call = y at htold hannounced
  obtain ⟨result, u⟩ := x
  obtain ⟨result', u'⟩ := y
  cases htold with
  | error hid => exact ⟨U, hle, .refused hid, hannounced⟩
  | ok =>
    obtain ⟨V, hle', hstep, hinstalled⟩ := hannounced.installFor hfirst
    dsimp only at hstep ⊢
    rw [hstep]
    exact ⟨V, fun a b hab => hle' a b (hle a b hab), .taken _ _ _, hinstalled⟩

theorem cancelTracked (h : w.Shadows σ T v) (index : Option Nat) :
    (w.cancelTracked index).1 = (v.cancelTracked index).1 ∧
      (w.cancelTracked index).2.Shadows σ T (v.cancelTracked index).2 := by
  unfold World.cancelTracked
  rw [h.tracked]
  cases v.tracked[index.getD (v.tracked.size - 1)]? with
  | none => exact ⟨rfl, h⟩
  | some future => exact h.cancelFuture future

/-- `invoke` does the same for any word, with the same inputs. -/
theorem invoke (h : w.Shadows σ T v) (henv : env.Agrees σ env') (handler : Handler) (args : List Value) :
    AnsweredAlike σ T (fun U : Pairing => U.Told) (w.invoke env handler args) (v.invoke env' handler args) := by
  cases handler with
  | primitive primitive =>
    simp only [World.invoke, World.callPrimitive_eq, World.carryOut, h.fresh, h.turtle]
    cases primitive.call v.fresh v.turtle args with
    | error c => exact h.complain c
    | ok effect =>
      have hmoved : Shadows σ T { w with turtle := effect.turtle, fresh := v.fresh + 2 }
          { v with turtle := effect.turtle, fresh := v.fresh + 2 } := { h with turtle := rfl, fresh := rfl }
      dsimp only
      cases effect.line with
      | none => exact hmoved.answers (.ok _)
      | some text => exact (hmoved.print "output" (.same text)).answers (.ok _)
  | halt | brk =>
    obtain _ | ⟨reason, _ | ⟨_, _⟩⟩ := args
    · exact h.complain _
    · obtain ⟨U, hle, hcancelled⟩ := h.cancelRun reason
      exact ⟨U, hle, .ok _, hcancelled⟩
    · exact h.complain _
  | fail =>
    obtain _ | ⟨x, _ | ⟨_, _⟩⟩ := args
    · exact h.complain _
    · exact h.complain ⟨.runtime, [x]⟩
    · exact h.complain _
  | untrace =>
    cases args with
    | nil => exact (h.setTrace false).answers (.ok _)
    | cons => exact h.complain _
  | retrace =>
    cases args with
    | nil => exact (h.setTrace true).answers (.ok _)
    | cons => exact h.complain _
  | quiet =>
    cases args with
    | nil => exact h.complain ⟨.value, []⟩
    | cons => exact h.complain _
  | again =>
    obtain _ | ⟨x, _ | ⟨_, _⟩⟩ := args
    · exact h.complain _
    · obtain ⟨U, hle, htold, hstarted⟩ := h.start (henv.steady x.display) x.display
      simp only [World.invoke, henv.program]
      generalize w.start (env'.program x.display) x.display = a at htold hstarted
      generalize v.start (env'.program x.display) x.display = b at htold hstarted
      obtain ⟨result, u⟩ := a
      obtain ⟨result', u'⟩ := b
      cases htold with
      | ok => exact ⟨U, hle, .ok _, hstarted⟩
      | error hid => exact ⟨U, hle, .error hid, hstarted⟩
    · exact h.complain _

theorem nap (h : w.Shadows σ T v) (delay : Float) :
    (w.nap delay).1 = (v.nap delay).1 ∧ (w.nap delay).2.Shadows σ T (v.nap delay).2 := by
  obtain ⟨hfuture, hadded⟩ := h.addFuture (f := {}) rfl rfl
  obtain ⟨htimer, hset⟩ := hadded.later delay (.rouse v.futures.size)
  have hfuture : w.futures.size = v.futures.size := hfuture
  unfold World.nap World.addFuture
  dsimp only
  rw [hfuture]
  exact ⟨congrArg (Prod.mk v.futures.size) htimer, hset⟩

theorem clearView (h : w.Shadows σ T v) :
    (w.modifyShownView DebugView.clear).Shadows σ T (v.modifyShownView DebugView.clear) := by
  unfold World.modifyShownView
  rw [h.hostView]
  cases v.hostView with
  | some view => exact { h with hostView := rfl, view := h.view }
  | none => exact { h with hostView := rfl, view := .inl ⟨rfl, h.prints⟩ }

/-- `performWith` answers whatever is public alike, as long as the listeners are told in ways that come to the same. -/
theorem performWith (h : w.Shadows σ T v) (henv : env.Agrees σ env') (hnotify : Notifies σ notify notify') {o : Op}
    (ho : o.IsPublic σ) : AnsweredAlike σ T (fun U => o.Told σ U) (performWith env notify o w)
      (performWith env' notify' o v) := by
  cases o with
  | hook call => exact h.hook hnotify call
  | step call => exact h.takeStep hnotify call
  | cancelGate reason => exact h.cancelGate reason
  | cancelStep step reason =>
    have hcancelled := h.cancelStep step reason
    rw [show σ.steps = 0 from ho] at hcancelled
    exact hcancelled
  | resetGate => exact h.resetGate.answers rfl
  | cancelRun reason | requestBreak reason =>
    obtain ⟨U, hle, hcancelled⟩ := h.cancelRun reason
    exact ⟨U, hle, rfl, hcancelled⟩
  | interrupt => exact h.deliverInterrupt
  | setInterval seconds => exact (h.setInterval seconds).answers rfl
  | setPacing seconds => exact h.setPacing seconds
  | setTrace on => exact (h.setTrace on).answers rfl
  | clearView => exact h.clearView.answers rfl
  | release => exact h.release.answers rfl
  | addListener name =>
    exact ⟨T, fun _ _ h => h, rfl,
      { h with listeners := fun hrecounts => congrArg (· ++ [name]) (h.listeners hrecounts) }⟩
  | removeListener name =>
    exact ⟨T, fun _ _ h => h, rfl,
      { h with listeners := fun hrecounts => congrArg (List.erase · name) (h.listeners hrecounts) }⟩
  | start source =>
    have hstarted := h.start (henv.steady source) source
    unfold World.performWith
    rw [henv.program]
    exact hstarted
  | track future => exact ⟨T, fun _ _ h => h, rfl, { h with tracked := congrArg (Array.push · future) h.tracked }⟩
  | cancelTracked index => exact ⟨T, fun _ _ h => h, h.cancelTracked index⟩
  | cancelFuture future => exact ⟨T, fun _ _ h => h, h.cancelFuture future⟩
  | report =>
    have hstate : w.stateEvent = v.stateEvent := by
      rw [World.stateEvent, World.stateEvent, h.run.status, h.run.steps, h.pendingSeq?]
    exact (h.addEvent hstate).answers rfl
  | spend listener act =>
    have hspent : (!w.spent.contains (listener, act)) = !v.spent.contains (listener, act) := by rw [h.spent ho]
    exact ⟨T, fun _ _ h => h, hspent,
      { h with spent := fun hrecounts => congrArg ((listener, act) :: ·) (h.spent hrecounts) }⟩
  | defer delay deed =>
    cases delay with
    | none => exact (h.soon (.deed deed)).answers rfl
    | some delay => exact (h.later delay (.deed deed)).2.answers rfl
  | announce listener event =>
    have hlabel : w.activeLabel = v.activeLabel := by rw [World.activeLabel, World.activeLabel, h.renderer]
    exact (h.addEvent (congrArg (Event.announced listener event) hlabel)).answers rfl
  | note event => exact (h.addEvent rfl).answers rfl
  | newBody words =>
    exact ⟨T, fun _ _ h => h, congrArg (LogoList.ofList · _) h.fresh,
      { h with fresh := congrArg (· + words.length) h.fresh }⟩
  | invoke handler args => exact h.invoke henv handler args
  | recordCall word args => exact ⟨T, fun _ _ h => h, rfl, { h with calls := congrArg (Array.push · (word, args)) h.calls }⟩
  | raise spec =>
    obtain ⟨U, hle, hid, hfaults⟩ := h.faults.raise spec
    exact ⟨U, hle, hid, h.withFaults hle hfaults⟩
  | setCause id cause =>
    have hsame (a : FaultId) : T a a := (h.faults.pairs ho a a).2 rfl
    exact (h.withFaults (fun _ _ h => h) (h.faults.setCause (hsame id) (.some (hsame cause)))).answers rfl
  | raiseWhile handled id =>
    have hsame (a : FaultId) : T a a := (h.faults.pairs ho a a).2 rfl
    exact (h.withFaults (fun _ _ h => h) (h.faults.raiseWhile (hsame handled) (hsame id))).answers rfl
  | describe id => exact h.answers (h.faults.getD ((h.faults.pairs ho id id).2 rfl))
  | nap delay => exact ⟨T, fun _ _ h => h, h.nap delay⟩
  | dropTimer timer => exact (h.cancelTimer timer).answers rfl
  | isSettled future => exact h.answers (h.isDone future)
  | print category text => exact (h.print category (.same text)).answers rfl
  | write record => exact (h.write record).answers rfl
  | showTrace event => exact (h.showTrace event).answers rfl
  | log => exact (h.addLog ..).answers rfl
  | hookInterrupt reason =>
    unfold World.performWith
    rw [henv.signals]
    cases env'.signals with
    | true => exact ⟨T, fun _ _ h => h, .ok (), { h with interrupt := rfl }⟩
    | false => exact h.complain noSignals
  | unhookInterrupt => exact ⟨T, fun _ _ h => h, rfl, { h with interrupt := rfl }⟩
  | setStatus status => exact ⟨T, fun _ _ h => h, rfl, { h with lastStatus := rfl }⟩
  | pacing => exact h.answers h.interval
  | turtle => exact h.answers h.turtle

/-- The next operation of two routines side by side is answered so that they stay side by side. -/
theorem performed {α : Type} {R : Pairing → α → α → Prop} {o o' : Op} {k : o.Reply → Routine α} {k' : o'.Reply → Routine α}
    (h : w.Shadows σ T v) (henv : env.Agrees σ env') (hnotify : Notifies σ notify notify')
    (hop : (Routine.op o k).Abreast σ R T (.op o' k')) :
    ∃ U, T ≤ U ∧ (k (World.performWith env notify o w).1).Abreast σ R U (k' (World.performWith env' notify' o' v).1) ∧
      (World.performWith env notify o w).2.Shadows σ U (World.performWith env' notify' o' v).2 := by
  cases hop with
  | op ho hk =>
    obtain ⟨U, hle, htold, hafter⟩ := h.performWith henv hnotify ho
    exact ⟨U, hle, hk U _ _ hle htold, hafter⟩
  | cancelStep hk =>
    obtain ⟨U, hle, hsame, hafter⟩ := h.cancelStep _ _
    exact ⟨U, hle, hsame ▸ hk U _ hle, hafter⟩
  | describe hid hk => exact ⟨T, fun _ _ h => h, hk _ _ (h.faults.getD hid), h⟩
  | setCause hid hcause hk =>
    exact ⟨T, fun _ _ h => h, hk, h.withFaults (fun _ _ h => h) (h.faults.setCause hid (.some hcause))⟩
  | raiseWhile hhandled hid hk =>
    exact ⟨T, fun _ _ h => h, hk, h.withFaults (fun _ _ h => h) (h.faults.raiseWhile hhandled hid)⟩
  | print htext hk => exact ⟨T, fun _ _ h => h, hk, h.print _ htext⟩
  | log hk => exact ⟨T, fun _ _ h => h, hk, h.addLog ..⟩

/-- Code that goes on side by side comes to related ends. -/
theorem runCode {α : Type} {R : Pairing → α → α → Prop} (henv : env.Agrees σ env') (hnotify : Notifies σ notify notify')
    {c d : Code α} (hcd : c.toRoutine.Abreast σ R T d.toRoutine) (h : w.Shadows σ T v) :
    AnsweredAlike σ T R (c.run (World.performWith env notify) w) (d.run (World.performWith env' notify') v) := by
  induction c generalizing d T w v with
  | done a =>
    cases d with
    | done b =>
      cases hcd with
      | done hab => exact h.answers hab
    | op => cases hcd
  | op o k ih =>
    cases d with
    | done => cases hcd
    | op o' k' =>
      obtain ⟨U, hle, hrest, hafter⟩ := h.performed henv hnotify hcd
      obtain ⟨V, hle', hab, hend⟩ := ih _ hrest hafter
      exact ⟨V, fun a b hab => hle' a b (hle a b hab), hab, hend⟩

theorem tellEach {react react' : String → World → Except FaultId Unit × World}
    (hreact : ∀ (name : String) (T : Pairing) (w v : World), w.Shadows σ T v →
      AnsweredAlike σ T (fun U : Pairing => U.Told) (react name w) (react' name v))
    (names : List String) (h : w.Shadows σ T v) :
    AnsweredAlike σ T (fun U : Pairing => U.Told) (World.tellEach react names w) (World.tellEach react' names v) := by
  induction names generalizing T w v with
  | nil => exact h.answers (.ok ())
  | cons name rest ih =>
    obtain ⟨U, hle, htold, hafter⟩ := hreact name T w v h
    unfold World.tellEach
    generalize react name w = x at htold hafter
    generalize react' name v = y at htold hafter
    obtain ⟨result, u⟩ := x
    obtain ⟨result', u'⟩ := y
    have hgoesOn {u u' : World} (hu : u.Shadows σ U u') : AnsweredAlike σ T (fun U : Pairing => U.Told)
        (World.tellEach react rest u) (World.tellEach react' rest u') := by
      obtain ⟨V, hle', hend⟩ := ih hu
      exact ⟨V, fun a b hab => hle' a b (hle a b hab), hend⟩
    cases htold with
    | ok => exact hgoesOn hafter
    | error hid =>
      dsimp only
      rw [hafter.faults.kindOf hid]
      split
      · exact hgoesOn (hafter.addLog ..)
      · exact ⟨U, hle, .error hid, hafter⟩

end Shadows

variable {σ : Skew} {env : Env}

section

variable (hrecounts : σ.recounts)

include hrecounts

theorem notifies_none : Notifies σ notifyNone notifyNone := by
  intro T event w v h
  unfold notifyNone
  rw [h.listeners hrecounts]
  exact h.tellEach (fun _ _ _ _ h => h.complain tooDeep) _

variable (henv : env.Agrees σ env) (hreact : ∀ name event, Reaction.Steady σ (env.react name event))

include henv hreact

theorem notifies_with {notify : Notify} (hnotify : Notifies σ notify notify) :
    Notifies σ (notifyWith env (performWith env notify)) (notifyWith env (performWith env notify)) := by
  intro T event w v h
  unfold notifyWith
  rw [h.listeners hrecounts]
  exact h.tellEach (fun name U _ _ hu => hu.runCode henv hnotify (hreact name event U)) _

/-- Listeners that go on alike are told in the same way, however deep they make steps nest. -/
theorem notifies_within (depth : Nat) :
    Notifies σ (notifyWith env (performWithin env depth)) (notifyWith env (performWithin env depth)) := by
  induction depth with
  | zero => exact notifies_with hrecounts henv hreact (notifies_none hrecounts)
  | succ depth ih => exact notifies_with hrecounts henv hreact ih

end

end World

/-- Two surroundings with the same programs, which go on alike in sessions that differ as `σ` says, and whose listeners
are told of steps in ways that come to the same. -/
structure Env.Shadows (σ : Skew) (env env' : Env) : Prop extends env.Agrees σ env' where
  notifies : World.Notifies σ (World.notify env) (World.notify env')

theorem World.Shadows.perform {σ : Skew} {T : Pairing} {w v : World} {env env' : Env} (h : w.Shadows σ T v)
    (henv : env.Shadows σ env') {o : Op} (ho : o.IsPublic σ) :
    AnsweredAlike σ T (fun U => o.Told σ U) (w.perform env o) (v.perform env' o) :=
  h.performWith henv.toAgrees henv.notifies ho

end SteppedLogo
