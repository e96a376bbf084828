import SteppedLogo.Proofs.Gate.Punctual
import SteppedLogo.Proofs.Gate.Sparing
import SteppedLogo.Proofs.Gate.Stopping

namespace SteppedLogo

namespace World

variable {env : Env} {u v w : World} {i : StepId} {b n : Bool}

/-- A step is stopped: its future is cancelled, or it is rejected deliberately. -/
def Stopped (w : World) (future : FutureId) : Prop :=
  w.outcome? future = some .cancelled ∨
    ∃ id f, w.outcome? future = some (.fault id) ∧ w.faults.get? id = some f ∧ f.kind = .cancellation

/-- The step `i` is set up at the moment `u` of what comes about between two states. -/
structure SetsUp (i : StepId) (w u v : World) : Prop where
  before : Pieces w u
  step : u.gate.steps.size = i
  after : Pieces u.installStep.2 v

/-- No step is added in a piece but by setting it up. -/
theorem Piece.keepsSteps (h : Piece b n w v) : KeepsSteps w v ∨ v = w.installStep.2 := by
  have hrelease {u x : World} {k : StepId} (hretract : (w.retract k).Still u) (id : FutureId) (o : Outcome)
      (hstill : (u.settle id o).Still x) : KeepsSteps w x := by
    refine fun i => Eq.trans ?_ ((light_retract w k).steps i)
    rw [hstill.steps, settle_gate, hretract.steps]
  cases h with
  | steady hsteady => exact .inl (.of_eq hsteady.steps)
  | addFuture _ _ hsteady => exact .inl (.of_eq hsteady.steps)
  | soon | later | next => exact .inl (.of_eq rfl)
  | await _ future j => exact .inl (light_whenDone w future j).steps
  | settle | cancel => exact .inl (.of_eq (by rw [settle_gate]))
  | reject _ _ hretract _ _ hsteady => exact .inl (hrelease hretract.toStill _ _ hsteady.toStill)
  | @elapse _ _ k l hnext =>
    obtain ⟨heq, -⟩ | ⟨s, -, -, heq⟩ := elapse_cases { w with loop := l } k
    · rw [heq]
      exact .inl (.of_eq rfl)
    · rw [heq]
      refine .inl fun i => Eq.trans ?_ ((light_retract { w with loop := l } k).steps i)
      rw [settle_gate]
  | @retract _ _ k l hnext => exact .inl (light_retract { w with loop := l } k).steps
  | @rouse _ _ id l hnext => exact .inl (rouse_keeps (.of_eq rfl) (.of_eq (by rw [settle_gate])))
  | install => exact .inr rfl

theorem size_installStep (w : World) : w.installStep.2.gate.steps.size = w.gate.steps.size + 1 := by
  obtain ⟨message, heq⟩ := installStep_eq w
  rw [heq]
  exact Array.size_push _

/-- Each step that comes up is set up at a moment. -/
theorem PiecesOf.setsUp (h : Pieces w v) (hold : w.gate.steps.size ≤ i) (hnew : i < v.gate.steps.size) :
    ∃ u, SetsUp i w u v := by
  induction h with
  | refl => exact absurd hnew (Nat.not_lt.2 hold)
  | @tail x y hbefore hpiece ih =>
    by_cases hthere : i < x.gate.steps.size
    · obtain ⟨u, hsetsUp⟩ := ih hthere
      exact ⟨u, hsetsUp.before, hsetsUp.step, hsetsUp.after.tail hpiece⟩
    · obtain hkeeps | rfl := hpiece.2.keepsSteps
      · exact absurd (hkeeps.size ▸ hnew) hthere
      · rw [size_installStep] at hnew
        exact ⟨x, hbefore, Nat.le_antisymm (Nat.not_lt.1 hthere) (Nat.le_of_lt_succ hnew), .refl⟩

theorem PiecesOf.frame (h : PiecesOf b n w v) : v.loop.clock = w.loop.clock ∧ w.faults.Keeps v.faults :=
  h.keeps (I := fun u => u.loop.clock = w.loop.clock ∧ w.faults.Keeps u.faults)
    (fun _ _ _ hpiece hu => ⟨hpiece.frame.1.trans hu.1, hu.2.trans hpiece.frame.2⟩) ⟨rfl, .refl _⟩

/-- A step is kept in time by whatever comes about at one time. -/
theorem PiecesOf.punctual {future : FutureId} {timer : TimerId} {due : Float} (h : PiecesOf b n w v) (htimed : w.Timed)
    (hpunctual : w.Punctual i future timer due) : v.Punctual i future timer due := by
  refine (h.keeps (I := fun u => u.Timed ∧ u.Punctual i future timer due) (fun u x hwired hpiece hu => ?_)
    ⟨htimed, hpunctual⟩).2
  exact ⟨(hpiece.parts hwired).timed hu.1, hu.2.piece hpiece hwired hu.1⟩

theorem interval_retract (w : World) (i : StepId) : (w.retract i).gate.interval = w.gate.interval :=
  retract_keeps (K := fun u => u.gate.interval = w.gate.interval) rfl (fun _ => rfl) fun _ hu => hu

theorem interval_cancelStep (w : World) (i : StepId) (reason : Value) :
    (w.cancelStep i reason).2.gate.interval = w.gate.interval := by
  obtain ⟨heq, -⟩ | ⟨s, -, -, heq⟩ := cancelStep_cases w i reason <;> rw [heq]
  change (((w.retract i).raise (.cancellation reason)).2.settle _ _).gate.interval = _
  rw [settle_gate]
  exact interval_retract w i

theorem pieces_announceStep (hlisteners : ∀ name event, (env.react name event).run.All Op.KeepsTimers) (call : Call)
    (hw : w.Sound) : (w.announceStep (notify env) call).2.Sound ∧ Pieces w (w.announceStep (notify env) call).2 := by
  have haside (u v : World) (haside : u.Aside v) (hu : u.Sound ∧ Pieces w u) : v.Sound ∧ Pieces w v :=
    ⟨(haside.light.grows hu.1).1, hu.2.trans (haside.steady.pieces hu.1.toWired)⟩
  refine announceStep_keeps (I := fun u => u.Sound ∧ Pieces w u) haside (fun event u hu => ?_) call ⟨hw, .refl⟩
  exact notifyWith_keeps (fun o ho u hu => pieces_performWithin hlisteners _ ho hu)
    (fun u _ _ _ _ hu => haside u _ (aside_addLog ..) hu) (fun name => hlisteners name event) hu

/-- A new step waits. -/
theorem outcome?_installStep (w : World) : w.installStep.2.outcome? w.installStep.1.future = none := by
  obtain ⟨message, heq⟩ := installStep_eq w
  rw [heq]
  exact outcome?_of_get (w := { w with futures := w.futures.push _ }) Array.getElem?_push_size

/-- A step that is set up for a run waits, unless the run is to be cancelled. -/
theorem installFor_made (w : World) (r : RunId) : (w.installFor r).1.id = w.gate.steps.size ∧
    (w.installFor r).2.gate.interval = w.gate.interval ∧
      ((w.installFor r).2.outcome? (w.installFor r).1.future = none ∨ ((w.installFor r).2.runOf r).status = .canceling) := by
  obtain ⟨-, heq⟩ | ⟨hcanceling, heq⟩ := installFor_cases r w <;> rw [heq]
  · exact ⟨(installStep_fst w).1, (installStep_fst w).2, .inl (outcome?_installStep w)⟩
  · refine ⟨(installStep_fst w).1, (interval_cancelStep _ _ _).trans (installStep_fst w).2, .inr ?_⟩
    rw [← hcanceling]
    simp only [runOf, runs_cancelStep]

/-- A step that is taken is set up at the interval that is set afterwards, and waits. -/
theorem setsUp_of_step (hlisteners : ∀ name event, (env.react name event).run.All Op.KeepsTimers) (hw : w.Sound)
    {call : Call}
    {step : Step} (h : w.perform env (.step call) = (.ok step, v)) :
    (∃ u, SetsUp step.id w u v ∧ u.gate.interval = v.gate.interval) ∧ v.outcome? step.future = none := by
  rw [perform_eq] at h
  change w.takeStep (notify env) call = _ at h
  obtain ⟨hsound, hpieces⟩ := pieces_announceStep hlisteners call hw
  obtain ⟨fault, u, hannounced, heq⟩ | ⟨u, hannounced, heq⟩ := takeStep_cases (notify env) call w
  · rw [heq] at h
    cases h
  · rw [hannounced] at hpieces
    rw [heq] at h
    cases h
    exact ⟨⟨u, ⟨hpieces, (installStep_fst u).1.symm, .refl⟩, (installStep_fst u).2.symm⟩, outcome?_installStep u⟩

/-- So is a step that is taken for a run, unless the run is to be cancelled. -/
theorem setsUp_of_hook (hlisteners : ∀ name event, (env.react name event).run.All Op.KeepsTimers) (hw : w.Sound)
    {call : Call}
    {step : Step} (h : w.perform env (.hook call) = (.ok step, v)) :
    (∃ u, SetsUp step.id w u v ∧ u.gate.interval = v.gate.interval) ∧
      (v.outcome? step.future = none ∨ (v.runOf w.session.current).status = .canceling) := by
  rw [perform_eq] at h
  change w.hook (notify env) call = _ at h
  obtain ⟨shown, hcall⟩ := hook_cases (notify env) call w
  obtain ⟨hsound, hpieces⟩ := pieces_announceStep hlisteners shown hw
  obtain ⟨fault, u, hannounced, heq⟩ | ⟨u, hannounced, heq⟩ := hcall
  · rw [heq] at h
    cases h
  · rw [hannounced] at hpieces hsound
    rw [heq] at h
    cases h
    obtain ⟨hid, hinterval, hwaits⟩ := installFor_made u w.session.current
    exact ⟨⟨u, ⟨hpieces, hid.symm, pieces_installed hsound _⟩, hinterval.symm⟩, hwaits⟩

end World

namespace Scene

open World

variable {env : Env} {P : Op → Prop} {s t u : Scene} {w : World} {i : StepId} {future : FutureId} {timer : TimerId}
variable {due : Float}

/-- A step on which the clock does not go back. -/
structure Ahead (env : Env) (P : Op → Prop) (s t : Scene) : Prop where
  step : Step env P s t
  clock : s.world.loop.clock ≤ t.world.loop.clock

/-- Nothing is under way, and nothing is left to do before the clock goes on. -/
def Settled (s : Scene) : Prop := s.activity = .none ∧ s.world.loop.next? = none

/-- In each step the clock moves, or a timer is stopped that is no step's, or what happens comes about in pieces. -/
theorem Step.pieces_or (henv : env.SparesSteps) (hP : ∀ o, P o → o.KeepsTimers) (h : Step env P s t) (hs : s.Intact)
    (hsparing : s.Sparing) : Pieces s.world t.world ∨ (∃ clock, t.world = s.world.setClock clock) ∨
      ∃ timer, s.world.Spare timer ∧ t.world = s.world.cancelTimer timer := by
  cases h with
  | clock w clock => exact .inr (.inl ⟨clock, rfl⟩)
  | @perform w o ho => exact .inl (pieces_perform henv.react (hP o ho) hs.sound)
  | @spawn w code hcode => exact .inl (pieces_addJob hs.sound.toWired code none)
  | next hnext =>
    obtain ⟨w, activity⟩ := s
    cases activity with
    | turn u =>
      cases hnext
      obtain ⟨id, job, rest⟩ := u
      have hup := hs.turn _ rfl
      have hrest := hsparing.rest _ rfl
      cases rest with
      | done result => exact .inl (pieces_putDown hs.sound hup (.finished result))
      | op o k =>
        obtain hkeeps | ⟨timer, rfl⟩ := o.keepsTimers_or
        · exact .inl (pieces_perform henv.react hkeeps hs.sound)
        · exact .inr (.inr ⟨timer, hrest.1, rfl⟩)
      | await future k =>
        cases future with
        | none => exact .inl (pieces_putDown hs.sound hup (.paused k))
        | some future =>
          simp only [Turn.advance]
          split
          · exact .inl (pieces_putDown hs.sound hup (.parked future k))
          · next o _ => exact .inl ((w.aside_receive o).steady.pieces hs.sound.toWired)
    | deed c =>
      cases c with
      | done result =>
        cases hnext
        exact .inl .refl
      | op o k =>
        cases hnext
        exact .inl (pieces_perform henv.react (hsparing.deed _ rfl).1 hs.sound)
    | none =>
      simp only [next?] at hnext
      split at hnext
      · cases hnext
      · next l hloop =>
        cases hnext
        have hnobody (i : StepId) : (none : Option Callback) ≠ some (.elapse i) ∧
          (none : Option Callback) ≠ some (.retract i) :=
          ⟨(Option.some_ne_none _).symm, (Option.some_ne_none _).symm⟩
        exact .inl ((Piece.next hloop hnobody).pieces hs.sound.toWired)
      · next c l hloop =>
        cases hnext
        exact .inl (pieces_called hs.sound hloop).2

/-- What holds of each scene on the way. -/
structure Kept (s : Scene) : Prop extends s.Intact, s.Sparing where
  timed : s.world.Timed
  clocked : s.world.Clocked

theorem kept_fresh (hfresh : w.Fresh) (hidle : w.loop.batch = 0) : ({ world := w } : Scene).Kept where
  toIntact := intact_of_sound hfresh.sound fun _ h => by cases h
  toSparing := sparing_fresh hfresh
  timed := hfresh.timed
  clocked := by
    refine ⟨⟨?_, ?_⟩, fun i hi => ?_⟩
    · rw [hfresh.timers]
      exact .nil
    · rw [hidle]
      exact Nat.zero_le _
    · obtain ⟨r, hr, -⟩ | ⟨t, ht, -⟩ := hi
      · rw [hfresh.ready] at hr
        cases hr
      · rw [hfresh.timers] at ht
        cases ht

theorem Step.kept (henv : env.SparesSteps) (hP : ∀ o, P o → o.KeepsTimers) (h : Step env P s t) (hs : s.Kept) : t.Kept := by
  obtain ⟨hintact, hparts⟩ := h.parts hs.toIntact
  exact ⟨hintact, h.sparing henv hP hs.toIntact hs.timed hs.toSparing, hparts.timed hs.timed, hparts.clocked hs.clocked⟩

theorem Steps.kept (henv : env.SparesSteps) (hP : ∀ o, P o → o.KeepsTimers) (h : Steps env P s t) (hs : s.Kept) :
    t.Kept := by
  induction h with
  | refl => exact hs
  | tail _ hstep ih => exact hstep.kept henv hP ih

/-- A step is kept in time while the clock does not go back. -/
theorem Ahead.punctual (henv : env.SparesSteps) (hP : ∀ o, P o → o.KeepsTimers) (h : Ahead env P s t) (hs : s.Kept)
    (hpunctual : s.world.Punctual i future timer due) : t.world.Punctual i future timer due := by
  obtain hpieces | ⟨clock, heq⟩ | ⟨other, hspare, heq⟩ := h.step.pieces_or henv hP hs.toIntact hs.toSparing
  · exact hpieces.punctual hs.timed hpunctual
  · rw [heq]
    refine hpunctual.setClock ?_
    have hahead := h.clock
    rw [heq] at hahead
    exact hahead
  · rw [heq]
    exact hpunctual.cancelTimer fun q hq => hspare.2 i q hq

theorem ahead_kept (henv : env.SparesSteps) (hP : ∀ o, P o → o.KeepsTimers)
    (h : Relation.ReflTransGen (Ahead env P) s t) (hs : s.Kept) : t.Kept ∧
      ∀ {i future timer due}, s.world.Punctual i future timer due → t.world.Punctual i future timer due := by
  induction h with
  | refl => exact ⟨hs, fun hp => hp⟩
  | tail _ hstep ih =>
    exact ⟨hstep.step.kept henv hP ih.1, fun hp => hstep.punctual henv hP ih.1 (ih.2 hp)⟩

theorem Steps.faults (henv : env.SparesSteps) (hP : ∀ o, P o → o.KeepsTimers) (h : Steps env P s t) (hs : s.Kept) :
    s.world.faults.Keeps t.world.faults := by
  induction h with
  | refl => exact .refl _
  | tail hbefore hstep ih =>
    have hkept := Steps.kept henv hP hbefore hs
    refine ih.trans ?_
    obtain hpieces | ⟨clock, heq⟩ | ⟨timer, -, heq⟩ := hstep.pieces_or henv hP hkept.toIntact hkept.toSparing
    · exact hpieces.frame.2
    · rw [heq]
      exact .refl _
    · rw [heq]
      exact .refl _

/-- What is stopped stays so. -/
theorem Steps.stopped (henv : env.SparesSteps) (hP : ∀ o, P o → o.KeepsTimers) (h : Steps env P s t) (hs : s.Kept)
    {q : PacedStep} (hq : s.world.gate.steps[i]? = some q) (hstopped : s.world.Stopped q.future) :
    t.world.Stopped q.future := by
  have hlasts {o : Outcome} (ho : s.world.outcome? q.future = some o) : t.world.outcome? q.future = some o := by
    obtain ⟨q', -, hfuture, hout⟩ := (Steps.parts h hs.toIntact).2.settled hq ho
    exact hfuture ▸ hout
  obtain ho | ⟨id, f, ho, hf, hkind⟩ := hstopped
  · exact .inl (hlasts ho)
  · obtain ⟨g, hg, hagrees⟩ := Steps.faults henv hP h hs id f hf
    exact .inr ⟨id, g, hlasts ho, hg, hagrees.kind.trans hkind⟩

/-- What becomes of a step that is due at a given time: unless it is stopped it waits while that time is still to come, and
has been resolved where the loop is settled and it has come; and if it is stopped it stays so. -/
structure PacedUntil (env : Env) (P : Op → Prop) (s : Scene) (future : FutureId) (due : Float) : Prop where
  waits : ¬ s.world.Stopped future → s.world.loop.clock < due → s.world.outcome? future = none
  resolves : ¬ s.world.Stopped future → s.Settled → due ≤ s.world.loop.clock →
    s.world.outcome? future = some (.value .none)
  stopped : s.world.Stopped future → ∀ last, Steps env P s last → last.world.Stopped future

theorem Kept.pacedUntil (henv : env.SparesSteps) (hP : ∀ o, P o → o.KeepsTimers) (hs : s.Kept)
    (h : s.world.Punctual i future timer due) :
    ∃ q : PacedStep, s.world.gate.steps[i]? = some q ∧ s.PacedUntil env P q.future due := by
  cases h with
  | waiting hawaits =>
    obtain ⟨seq, hq⟩ := hawaits.step
    refine ⟨_, hq, fun _ _ => hawaits.waiting, fun _ hsettled hdue => ?_, fun hstopped last hlast =>
      Steps.stopped henv hP hlast hs hq hstopped⟩
    exact absurd hdue (hawaits.holds.not_due hs.clocked.regular hsettled.2)
  | settled hq hfuture ho htimely =>
    subst hfuture
    refine ⟨_, hq, fun hnot hearlier => ?_, fun hnot _ _ => ?_, fun hstopped last hlast =>
      Steps.stopped henv hP hlast hs hq hstopped⟩
    · cases htimely with
      | resolved hdue => exact absurd hearlier hdue
      | cancelled => exact absurd (.inl ho) hnot
      | rejected hf hkind => exact absurd (.inr ⟨_, _, ho, hf, hkind⟩) hnot
    · cases htimely with
      | resolved => exact ho
      | cancelled => exact absurd (.inl ho) hnot
      | rejected hf hkind => exact absurd (.inr ⟨_, _, ho, hf, hkind⟩) hnot

/-- Listeners and operations spare the timers of steps, and the scene is one of a fresh bridge. Each step that comes up in
a stretch `Ahead` was set up at a moment of it; the step that `step` gives is open, at the interval set then, and so is
that of `hook`, unless its run is canceling. Only what cancels stops a step. In all later scenes it is `PacedUntil` the
clock plus that interval: it waits before, and has been resolved from then on wherever the loop is settled, unless it was
stopped, and then it is never resolved. -/
theorem paced_exactly (henv : env.SparesSteps) (hP : ∀ o, P o → o.KeepsTimers) (hfresh : w.Fresh) (hidle : w.loop.batch = 0)
    (hs : Steps env P { world := w } s) (hstep : Ahead env P s t) :
    (∀ i, s.world.gate.steps.size ≤ i → i < t.world.gate.steps.size → ∃ u, SetsUp i s.world u t.world) ∧
    (∀ call step, s.world.perform env (.step call) = (.ok step, t.world) →
      (∃ u, SetsUp step.id s.world u t.world ∧ u.gate.interval = t.world.gate.interval) ∧
        t.world.outcome? step.future = none) ∧
    (∀ call step, s.world.perform env (.hook call) = (.ok step, t.world) →
      (∃ u, SetsUp step.id s.world u t.world ∧ u.gate.interval = t.world.gate.interval) ∧
        (t.world.outcome? step.future = none ∨ (t.world.runOf s.world.session.current).status = .canceling)) ∧
    (s.MayStop env t ∨ s.world.StopsNone t.world) ∧
    ∀ i u, SetsUp i s.world u t.world → ∀ later, Relation.ReflTransGen (Ahead env P) t later →
      ∃ q : PacedStep, later.world.gate.steps[i]? = some q ∧
        later.PacedUntil env P q.future (s.world.loop.clock + u.gate.interval) := by
  have hkept := Steps.kept henv hP hs (kept_fresh hfresh hidle)
  refine ⟨fun i hold hnew => ?_, fun call step hreply => setsUp_of_step henv.react hkept.sound hreply,
    fun call step hreply => setsUp_of_hook henv.react hkept.sound hreply, hstep.step.stopsNone_or hkept.toIntact,
    fun i u hsetsUp later hlater => ?_⟩
  · obtain hpieces | ⟨clock, heq⟩ | ⟨timer, -, heq⟩ := hstep.step.pieces_or henv hP hkept.toIntact hkept.toSparing
    · exact hpieces.setsUp hold hnew
    · rw [heq] at hnew
      exact absurd hnew (Nat.not_lt.2 hold)
    · rw [heq] at hnew
      exact absurd hnew (Nat.not_lt.2 hold)
  · have hu : u.Timed ∧ u.Clocked := ⟨hsetsUp.before.parts.timed hkept.timed, hsetsUp.before.parts.clocked hkept.clocked⟩
    have hset := punctual_installStep hu.2
    rw [hsetsUp.step, hsetsUp.before.frame.1] at hset
    have hpunctual := hsetsUp.after.punctual hu.1.install hset
    obtain ⟨hlast, hlasts⟩ := ahead_kept henv hP hlater (hstep.step.kept henv hP hkept)
    exact hlast.pacedUntil henv hP (hlasts hpunctual)

/-- A listener that cancels what is pending at the gate when it is told of the first step. -/
def hurriedEnv : Env where
  program := turtleWords.interpret false
  react name := listenerCode name [{ deed := .cancelGate (.text "stop"), seq := some 1 }]

def unhurried : World := { gate := { interval := 5.0, listeners := ["hasty"] } }

/-- A step has been taken at this gate. -/
def stepTaken : Scene := { world := (unhurried.perform hurriedEnv (.step { func := .text "fd" })).2 }

/-- The interval has been made a shorter one since. -/
def hurried : Scene := { world := (stepTaken.world.perform hurriedEnv (.setInterval 1.0)).2 }

/-- The clock has reached the time at which the step is due. -/
def stepDue : Scene := { world := hurried.world.setClock 5.0 }

/-- The step is resolved at the interval set when it was taken, whatever the listener cancels and although a shorter
interval is set meanwhile. -/
theorem stepTaken_resolved : (stepDue.after hurriedEnv 2).Settled ∧
    ∃ q : PacedStep, (stepDue.after hurriedEnv 2).world.gate.steps[0]? = some q ∧
      (stepDue.after hurriedEnv 2).world.outcome? q.future = some (.value .none) := by
  have henv : hurriedEnv.SparesSteps :=
    Env.sparesSteps_words false turtleWords (fun _ => [{ deed := .cancelGate (.text "stop"), seq := some 1 }]) rfl rfl
  have htaken : Ahead hurriedEnv Op.KeepsTimers { world := unhurried } stepTaken := ⟨.perform unhurried trivial, by decide⟩
  have hhurried : Ahead hurriedEnv Op.KeepsTimers stepTaken hurried := ⟨.perform stepTaken.world trivial, by decide⟩
  have hdue : Ahead hurriedEnv Op.KeepsTimers hurried stepDue := ⟨.clock hurried.world 5.0, by decide⟩
  have helapses : Ahead hurriedEnv Op.KeepsTimers stepDue (stepDue.after hurriedEnv 1) := ⟨.next rfl, by decide⟩
  have hretracts : Ahead hurriedEnv Op.KeepsTimers (stepDue.after hurriedEnv 1) (stepDue.after hurriedEnv 2) :=
    ⟨.next rfl, by decide⟩
  have hlater := Relation.ReflTransGen.refl.tail hhurried |>.tail hdue |>.tail helapses |>.tail hretracts
  obtain ⟨-, hstep, -, -, hpaced⟩ :=
    paced_exactly henv (fun _ ho => ho) ⟨rfl, rfl, rfl, rfl, rfl, rfl, rfl, rfl⟩ rfl .refl htaken
  obtain ⟨⟨u, hsetsUp, hinterval⟩, -⟩ := hstep { func := .text "fd" } ⟨0, 1, 0⟩ (by with_unfolding_all rfl)
  obtain ⟨q, hq, huntil⟩ := hpaced 0 u hsetsUp _ hlater
  have hinterval : u.gate.interval = 5.0 := hinterval
  have hsettled : (stepDue.after hurriedEnv 2).Settled := ⟨rfl, by rfl⟩
  have hfuture : q.future = 0 := by
    cases hq
    rfl
  rw [hinterval] at huntil
  refine ⟨hsettled, q, hq, huntil.resolves ?_ hsettled (by decide)⟩
  rw [hfuture]
  rintro (hcancelled | ⟨id, f, hfault, -⟩)
  · cases hcancelled
  · cases hfault

end Scene

end SteppedLogo
