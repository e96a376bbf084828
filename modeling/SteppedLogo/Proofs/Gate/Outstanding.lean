import SteppedLogo.Proofs.Session.Ending
import SteppedLogo.Proofs.Session.Subsides

namespace SteppedLogo

namespace World

variable {env : Env} {P : Op → Prop} {u v w : World} {i : StepId}

/-- Tells the listeners of a step that is taken by no listener. -/
def notify (env : Env) : Notify := notifyWith env (performWithin env 199)

theorem perform_eq (o : Op) (w : World) : w.perform env o = performWith env (notify env) o w := rfl

end World

/-- Told of a step while none is outstanding, the listeners leave none outstanding. -/
def Env.LeavesNone (env : Env) : Prop :=
  ∀ event w, World.Sound w → w.Clear → (World.notify env event w).2.Clear

namespace World

variable {env : Env} {P : Op → Prop} {u v w : World} {i : StepId}

theorem notify_changes (event : StepEvent) (w : World) : Changes env w (notify env event w).2 :=
  notifyWith_keeps (fun o _ v hv => Relation.ReflTransGen.trans hv (performWithin_changes _ o v))
    (fun _ _ _ _ _ hu => hu.tail (.touch (.aside (aside_addLog ..)))) (fun _ => Code.all_true _) .refl

/-- Listeners that make no call boundaries leave no step outstanding. -/
theorem leavesNone_of_quiet (hquiet : ∀ name event, (env.react name event).run.All Op.IsQuiet) :
    env.LeavesNone := by
  intro event w hw hclear
  have htouches : Touches env w (notify env event w).2 :=
    notifyWith_keeps (fun o ho v hv => Relation.ReflTransGen.trans hv (performWithin_touches _ ho v))
      (fun _ _ _ _ _ hu => hu.tail (.aside (aside_addLog ..))) (hquiet · event) .refl
  exact (htouches.eases hw).clear hclear

/-- A new step is outstanding besides those that were. -/
theorem outstanding_installStep (hw : w.Wired) :
    w.installStep.2.Outstanding i ↔ w.Outstanding i ∨ i = w.gate.steps.size := by
  obtain ⟨message, heq⟩ := installStep_eq w
  have hnew : w.installStep.2.outcome? w.futures.size = none := by
    rw [heq]
    simp [outcome?, addLog]
  have hold (s : PacedStep) (hs : w.gate.steps[i]? = some s) :
      w.installStep.2.isDone s.future = w.isDone s.future := by
    obtain ⟨f, hf, -⟩ := hw.step_future i s hs
    rw [heq, isDone, isDone, outcome?_of_get hf, outcome?_of_get (getElem?_push_of_some hf)]
  have hget (s : PacedStep) : w.installStep.2.gate.steps[i]? = some s ↔
      w.gate.steps[i]? = some s ∨ i = w.gate.steps.size ∧
        s = ⟨w.gate.seq, w.futures.size, some w.loop.nextTimer⟩ := by
    rw [heq]
    exact getElem?_push_eq_some
  constructor
  · rintro ⟨s, hs, hopen⟩
    obtain hs | ⟨hi, -⟩ := (hget s).1 hs
    · exact .inl ⟨s, hs, hold s hs ▸ hopen⟩
    · exact .inr hi
  · rintro (⟨s, hs, hopen⟩ | hi)
    · exact ⟨s, (hget s).2 (.inl hs), (hold s hs).trans hopen⟩
    · exact ⟨_, (hget _).2 (.inr ⟨hi, rfl⟩), isDone_eq_false.2 hnew⟩

/-- A new step may be set up exactly where no other one is outstanding. -/
theorem tidy_installStep (hw : w.Wired) : w.installStep.2.Tidy ↔ w.Clear := by
  have hpending : w.installStep.2.gate.pending = some w.gate.steps.size := by
    obtain ⟨message, heq⟩ := installStep_eq w
    rw [heq]
    rfl
  constructor
  · intro htidy i hi
    have hsame := htidy i ((outstanding_installStep hw).2 (.inl hi))
    rw [hpending] at hsame
    cases hsame
    obtain ⟨s, hs, -⟩ := hi
    rw [Array.getElem?_size] at hs
    cases hs
  · intro hclear i hi
    obtain hi | rfl := (outstanding_installStep hw).1 hi
    · exact absurd hi (hclear i)
    · exact hpending

theorem tidy_installFor (hw : w.Sound) (hclear : w.Clear) (id : RunId) : (w.installFor id).2.Tidy := by
  have hmodify := (eases_modifyRun w.installStep.2 id ({ · with steps := w.installStep.1.seq })).tidy
    ((tidy_installStep hw.toWired).2 hclear)
  have hsound := (grows_modifyRun w.installStep.2 id ({ · with steps := w.installStep.1.seq })
    (fun run _ => ⟨rfl, .inl ⟨rfl, rfl⟩⟩) (grows_installStep w hw).1).1
  obtain ⟨-, heq⟩ | ⟨-, heq⟩ := installFor_cases id w
  · rw [heq]
    exact hmodify
  · rw [heq]
    exact (eases_cancelStep hsound.toWired _ _).tidy hmodify

/-- Where nothing is outstanding, announcing a step leaves nothing outstanding either. -/
theorem clear_announceStep (hlisteners : env.LeavesNone) (hw : w.Sound) (htidy : w.Tidy) {call : Call}
    (hannounced : w.announceStep (notify env) call = (.ok (), u)) : u.Sound ∧ u.Clear := by
  obtain ⟨id, -, heq⟩ | ⟨hpending, x, hx, ⟨c, heq⟩ | ⟨event, heq⟩⟩ := announceStep_cases (notify env) call w
  · rw [heq] at hannounced
    cases hannounced
  · rw [heq] at hannounced
    cases hannounced
  · obtain rfl : (notify env event x).2 = u := by rw [← heq, hannounced]
    have hsound := (hx.light.grows hw).1
    exact ⟨((notify_changes event x).grows hsound).1,
      hlisteners event x hsound (hx.eases.clear (htidy.clear hpending))⟩

/-- A step whose announcement fails is not set up. -/
theorem tidy_of_refused (hlisteners : env.LeavesNone) (hw : w.Sound) (htidy : w.Tidy) {call : Call}
    {fault : FaultId} (hrefused : w.announceStep (notify env) call = (.error fault, u)) : u.Tidy := by
  obtain ⟨id, -, heq⟩ | ⟨hpending, x, hx, ⟨c, heq⟩ | ⟨event, heq⟩⟩ := announceStep_cases (notify env) call w
  · have hu : (@complain Unit w (stillPending (((w.pacedStep? id).map PacedStep.seq).getD 0))).2 = u := by
      rw [← heq, hrefused]
    exact hu ▸ (aside_complain w _).eases.tidy htidy
  · have hu : (@complain Unit x c).2 = u := by rw [← heq, hrefused]
    exact hu ▸ (hx.trans (aside_complain x c)).eases.tidy htidy
  · obtain rfl : (notify env event x).2 = u := by rw [← heq, hrefused]
    have hclear := hlisteners event x (hx.light.grows hw).1 (hx.eases.clear (htidy.clear hpending))
    exact fun i hi => absurd hi (hclear i)

/-- Every operation keeps at most one step outstanding, as long as the listeners leave none. -/
theorem tidy_perform (hlisteners : env.LeavesNone) (o : Op) (hw : w.Sound) (htidy : w.Tidy) :
    (w.perform env o).2.Tidy := by
  have hquiet (hquiet : o.IsQuiet) : (w.perform env o).2.Tidy :=
    ((perform_touches hquiet w).eases hw).tidy htidy
  rw [perform_eq] at hquiet ⊢
  cases o with
  | hook call =>
    change (w.hook (notify env) call).2.Tidy
    obtain ⟨shown, ⟨fault, u, hcall, heq⟩ | ⟨u, hcall, heq⟩⟩ := hook_cases (notify env) call w
    · rw [heq]
      exact tidy_of_refused hlisteners hw htidy hcall
    · rw [heq]
      obtain ⟨hsound, hclear⟩ := clear_announceStep hlisteners hw htidy hcall
      exact tidy_installFor hsound hclear _
  | step call =>
    change (w.takeStep (notify env) call).2.Tidy
    obtain ⟨fault, u, hcall, heq⟩ | ⟨u, hcall, heq⟩ := takeStep_cases (notify env) call w
    · rw [heq]
      exact tidy_of_refused hlisteners hw htidy hcall
    · rw [heq]
      obtain ⟨hsound, hclear⟩ := clear_announceStep hlisteners hw htidy hcall
      exact (tidy_installStep hsound.toWired).2 hclear
  | defer delay deed =>
    cases delay with
    | none => exact ((light_soon w deed).eases rfl).tidy htidy
    | some delay => exact ((light_later w delay (c := .deed deed) trivial rfl).eases rfl).tidy htidy
  | _ => exact hquiet trivial

theorem tidy_move (hlisteners : env.LeavesNone) (hmove : Move env P w v) (hw : w.Sound)
    (htidy : w.Tidy) : v.Tidy := by
  cases hmove with
  | tick htick =>
    exact tick_keeps (fun _ _ hsubsides h => hsubsides.eases.tidy h) (fun o _ hu h => tidy_perform hlisteners o hu h)
      hw htick htidy
  | clock clock => exact htidy
  | perform ho => exact tidy_perform hlisteners _ hw htidy
  | spawn hcode => exact (eases_addJob w _ none).tidy htidy

/-- At most one step is outstanding in every state that comes about, and it is the pending one. -/
theorem tidy_of_reachable (hlisteners : env.LeavesNone) (hw : Reachable env P w) : w.Tidy := by
  obtain ⟨u, hfresh, hmoves⟩ := hw
  induction hmoves with
  | refl =>
    rintro i ⟨s, hs, -⟩
    simp [hfresh.steps] at hs
  | tail hbefore hmove ih => exact tidy_move hlisteners hmove (Moves.proceeds hbefore hfresh.sound).1 ih

/-- A step is refused while one is pending, and nothing but the fault comes of it. -/
theorem perform_step_of_pending (env : Env) (hpending : w.gate.pending = some i) (call : Call) :
    ∃ fault faults, faults.kindOf fault = .stepPending ∧
      w.perform env (.step call) = (.error fault, { w with faults }) ∧
        w.perform env (.hook call) = (.error fault, { w with faults }) := by
  have hrefused (call : Call) : w.announceStep (notify env) call =
      w.complain (stillPending (((w.pacedStep? i).map PacedStep.seq).getD 0)) := by
    simp only [announceStep, hpending]
  have hadd := Faults.get?_add w.faults
    (.ofComplaint (stillPending (((w.pacedStep? i).map PacedStep.seq).getD 0)))
  generalize hraised : w.faults.add
    (.ofComplaint (stillPending (((w.pacedStep? i).map PacedStep.seq).getD 0))) = raised at hadd
  have hcomplain {α : Type} : w.complain (stillPending (((w.pacedStep? i).map PacedStep.seq).getD 0)) =
      ((.error raised.1, { w with faults := raised.2 }) : Except FaultId α × World) := by
    rw [← hraised]
    rfl
  refine ⟨raised.1, raised.2, ?_, ?_, ?_⟩
  · rw [Faults.kindOf, hadd]
    rfl
  · change w.takeStep (notify env) call = _
    simp only [takeStep, hrefused, hcomplain]
    rfl
  · change w.hook (notify env) call = _
    simp only [hook, hrefused, hcomplain]
    rfl

/-- Where every listener leaves none outstanding (`LeavesNone`), in every reachable world an outstanding step is the
pending one: `cancelGate` leaves none, and `step` and `hook` are refused with a `stepPending` fault and change nothing
else. For any listeners, a `step` whose call has been announced keeps a reachable world tidy exactly if the announcement
left none outstanding. -/
theorem outstanding_is_pending (env : Env) (P : Op → Prop) :
    (env.LeavesNone → ∀ w, Reachable env P w →
      w.Tidy ∧ (∀ reason, (w.perform env (.cancelGate reason)).2.Clear) ∧
        ∀ i, w.Outstanding i → ∀ call, ∃ fault faults, faults.kindOf fault = .stepPending ∧
          w.perform env (.step call) = (.error fault, { w with faults }) ∧
            w.perform env (.hook call) = (.error fault, { w with faults })) ∧
    ∀ w call u, Reachable env P w → w.announceStep (notify env) call = (.ok (), u) →
      ((w.perform env (.step call)).2.Tidy ↔ u.Clear) := by
  refine ⟨fun hlisteners w hw => ?_, fun w call u hw hannounced => ?_⟩
  · have htidy := tidy_of_reachable hlisteners hw
    exact ⟨htidy, fun reason => htidy.clear_cancelGate hw.sound.toWired reason,
      fun i hi call => perform_step_of_pending env (htidy i hi) call⟩
  · have hsound : u.Sound := by
      have hkeeps : (w.announceStep (notify env) call).2.Sound :=
        announceStep_keeps (fun _ _ haside h => (haside.light.grows h).1)
          (fun event x h => ((notify_changes event x).grows h).1) call hw.sound
      rwa [hannounced] at hkeeps
    have hstep : (w.perform env (.step call)).2 = u.installStep.2 := by
      change (w.takeStep (notify env) call).2 = _
      simp only [takeStep, hannounced]
    rw [hstep]
    exact tidy_installStep hsound.toWired

/-- A gate whose first step waits. -/
def steppedOnce : World := (World.perform turtleEnv (.step { func := .text "fd" }) {}).2

/-- In `steppedOnce` one step is outstanding, a second one is refused, and `cancelGate` leaves none. -/
theorem steppedOnce_alone : steppedOnce.Outstanding 0 ∧ steppedOnce.Tidy ∧
    (steppedOnce.perform turtleEnv (.cancelGate (.text "stop"))).2.Clear ∧
    (∃ fault faults, faults.kindOf fault = .stepPending ∧
      steppedOnce.perform turtleEnv (.step { func := .text "bk" }) = (.error fault, { steppedOnce with faults })) ∧
    (World.announceStep (notify turtleEnv) { func := .text "fd" } {}).2.Clear := by
  have hquiet : turtleEnv.LeavesNone := leavesNone_of_quiet fun _ _ => trivial
  have hreachable : Reachable turtleEnv (fun _ => True) steppedOnce := ⟨{}, fresh_empty, .single (.perform _ trivial)⟩
  have hwaits : steppedOnce.Outstanding 0 := ⟨_, rfl, rfl⟩
  obtain ⟨halone, hleaves⟩ := outstanding_is_pending turtleEnv (fun _ => True)
  obtain ⟨htidy, hcancelled, hrefused⟩ := halone hquiet steppedOnce hreachable
  obtain ⟨fault, faults, hkind, hstep, -⟩ := hrefused 0 hwaits { func := .text "bk" }
  exact ⟨hwaits, htidy, hcancelled _, ⟨fault, faults, hkind, hstep⟩,
    (hleaves {} { func := .text "fd" } _ ⟨{}, fresh_empty, .refl⟩ rfl).1 htidy⟩

/-- A listener that takes a step of its own when it is told of the first one. -/
def steppingEnv : Env where
  program := Words.execute turtleWords
  react name := listenerCode name [{ deed := .step (.text "inner"), seq := some 1 }]

/-- A gate whose listener has taken a step while it was told of another one. -/
def steppedWithin : World :=
  (World.perform steppingEnv (.step { func := .text "outer" })
    (World.perform steppingEnv (.addListener "again") {}).2).2

theorem steppedWithin_reachable : Reachable steppingEnv (fun _ => True) steppedWithin := by
  have hlisten : Moves steppingEnv (fun _ => True) {} (World.perform steppingEnv (.addListener "again") {}).2 :=
    .single (.perform _ trivial)
  exact ⟨{}, fresh_empty, hlisten.tail (.perform _ trivial)⟩

/-- An outstanding step need not be the pending one, where a listener takes a step while it is told of another. -/
theorem not_tidy_of_reachable :
    ¬ ∀ (env : Env) (w : World), Reachable env (fun _ => True) w → w.Tidy := by
  intro htidy
  have hinner : steppedWithin.Outstanding 0 := ⟨_, rfl, rfl⟩
  have houter : steppedWithin.Outstanding 1 := ⟨_, rfl, rfl⟩
  have hsame := (htidy steppingEnv steppedWithin steppedWithin_reachable).unique hinner houter
  cases hsame

end World

end SteppedLogo

namespace SteppedLogo.World

variable {env : Env} {u v w : World} {i : StepId} {reason : Value}

/-- A step that is settled by a cancellation for the given reason. -/
def Rejected (w : World) (i : StepId) (reason : Value) : Prop :=
  ∃ (s : PacedStep) (fault : FaultId) (f : Fault), w.gate.steps[i]? = some s ∧
    w.outcome? s.future = some (.fault fault) ∧ w.faults.get? fault = some f ∧
      (Fault.cancellation reason).Agrees f

/-- What is rejected stays so, for the same reason. -/
theorem Rejected.mono (h : w.Rejected i reason) (hfutures : KeepsFutures w v)
    (hstep : ∀ s : PacedStep, w.gate.steps[i]? = some s →
      ∃ t : PacedStep, v.gate.steps[i]? = some t ∧ t.future = s.future)
    (hfaults : w.faults.Keeps v.faults) : v.Rejected i reason := by
  obtain ⟨s, fault, f, hs, hout, hf, hagrees⟩ := h
  obtain ⟨t, ht, hst⟩ := hstep s hs
  obtain ⟨g, hg, hagrees'⟩ := hfaults fault f hf
  exact ⟨t, fault, g, ht, by rw [hst]; exact hfutures.outcome? hout, hg, hagrees.trans hagrees'⟩

theorem Rejected.subsides (h : w.Rejected i reason) (hsubsides : w.Subsides v) : v.Rejected i reason :=
  h.mono hsubsides.eases.futures (fun _ hs => hsubsides.eases.steps.get hs) hsubsides.faults

theorem Rejected.extends (h : w.Rejected i reason) (hextends : w.Extends v) : v.Rejected i reason :=
  h.mono hextends.futures (fun s hs => by
    obtain ⟨timer, ht⟩ := hextends.step i s hs
    exact ⟨_, ht, rfl⟩) hextends.faults

theorem Rejected.not_value (h : w.Rejected i reason) {s : PacedStep} (hs : w.gate.steps[i]? = some s)
    (x : Value) : w.outcome? s.future ≠ some (.value x) := by
  obtain ⟨t, fault, f, ht, hout, -⟩ := h
  rw [hs] at ht
  cases ht
  rw [hout]
  intro hvalue
  cases hvalue

/-- A step that waits is rejected at once when it is cancelled. -/
theorem rejected_cancelStep (hw : w.Sound) (hi : w.Outstanding i) (reason : Value) :
    (w.cancelStep i reason).2.Rejected i reason := by
  obtain ⟨s, hs, hopen⟩ := hi
  obtain ⟨-, hdone⟩ | ⟨s', hs', -, heq⟩ := cancelStep_cases w i reason
  · rw [hdone s hs] at hopen
    cases hopen
  · rw [hs] at hs'
    cases hs'
    obtain ⟨f, hf, -⟩ := hw.step_future i s hs
    have hfopen : f.outcome = none := by
      rw [← outcome?_of_get hf]
      exact isDone_eq_false.1 hopen
    have hget : ((w.retract i).raise (.cancellation reason)).2.futures[s.future]? = some f := by
      rw [(aside_raise _ _).futures, futures_retract, hf]
    obtain ⟨t, ht, hst⟩ := (light_retract w i).steps.get hs
    rw [heq]
    refine ⟨t, ((w.retract i).raise (.cancellation reason)).1, .cancellation reason, ?_, ?_, ?_, .refl _⟩
    · exact (congrArg (fun g : Gate => g.steps[i]?) settle_gate).trans ht
    · rw [hst]
      exact outcome?_settle_of_open hget hfopen _
    · exact (congrArg (fun fs : Faults => fs.get? _) settle_faults).trans (Faults.get?_add _ _)

/-- The outstanding step is rejected when the gate is cancelled. -/
theorem rejected_cancelGate (hw : w.Sound) (htidy : w.Tidy) (hi : w.Outstanding i) (reason : Value) :
    (w.cancelGate reason).2.Rejected i reason := by
  simp only [cancelGate, htidy i hi]
  exact rejected_cancelStep hw hi reason

end SteppedLogo.World
