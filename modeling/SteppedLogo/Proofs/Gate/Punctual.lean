import SteppedLogo.Proofs.Gate.Apart
import SteppedLogo.Proofs.Schedule.Punctual

namespace SteppedLogo.World

variable {env : Env} {u v w : World} {i k : StepId} {s : PacedStep} {future id : FutureId} {timer : TimerId} {due : Float}
variable {o : Outcome} {b n : Bool}

/-- No callback waits for a future that ends the pacing of a step. -/
def Unpaced (w : World) : Prop := ∀ (id : FutureId) (f : Future), w.futures[id]? = some f → ∀ i, .elapse i ∉ f.callbacks

/-- In a wired world no callback that ends the pacing of a step waits for a future. -/
theorem Wired.unpaced (hw : w.Wired) : w.Unpaced := fun id f hf _ hi => hw.attached id f _ hf hi

/-- Settling a future makes callbacks ready none of which ends the pacing of a step. -/
theorem loop_settle (hw : w.Unpaced) (id : FutureId) (o : Outcome) : ∃ cs : List Callback, (∀ i, .elapse i ∉ cs) ∧
    (w.settle id o).loop = { w.loop with ready := w.loop.ready ++ cs.map fun c => { callback := some c } } := by
  obtain ⟨cs, hcs, hloop⟩ := settle_loop w id o
  refine ⟨cs, fun i hi => ?_, hloop⟩
  obtain ⟨f, hf, -, hc⟩ := hcs _ hi
  exact hw id f hf i hc

/-- Settling a future does not move the clock. -/
theorem clock_settle (w : World) (id : FutureId) (o : Outcome) : (w.settle id o).loop.clock = w.loop.clock := by
  rw [settle_eq]

/-- Retracting a step does not move the clock. -/
theorem clock_retract (w : World) (i : StepId) : (w.retract i).loop.clock = w.loop.clock := by
  rw [loop_retract]
  split <;> rfl

/-- Taking the next callback off the queue does not move the clock. -/
theorem clock_next {c : Option Callback} {l l' : Loop Callback} (hnext : l.next? = some (c, l')) : l'.clock = l.clock := by
  obtain ⟨r, rest, -, -, rfl⟩ := Loop.next?_eq_some hnext
  exact l.clock_gathered

/-- Retracting a step settles no future. -/
theorem outcome?_retract (w : World) (i : StepId) (id : FutureId) : (w.retract i).outcome? id = w.outcome? id := by
  rw [outcome?, outcome?, futures_retract]

/-- The clock does not move in a piece, and earlier faults are told of as they were. -/
theorem Piece.frame (h : Piece b n w v) : v.loop.clock = w.loop.clock ∧ w.faults.Keeps v.faults := by
  cases h with
  | steady hsteady => exact ⟨by rw [hsteady.loop], hsteady.faults⟩
  | addFuture _ _ hsteady => exact ⟨by rw [hsteady.loop]; rfl, hsteady.faults⟩
  | soon | later => exact ⟨rfl, .refl _⟩
  | await _ future j => exact ⟨by unfold whenDone; split <;> rfl, (light_whenDone w future j).faults⟩
  | settle | cancel => exact ⟨clock_settle _ _ _, by rw [settle_faults]; exact .refl _⟩
  | @reject _ _ _ u _ k s e f _ _ hretract _ _ hsteady =>
    refine ⟨by rw [hsteady.loop, clock_settle, hretract.loop, clock_retract], .trans ?_ hsteady.faults⟩
    rw [settle_faults]
    exact (light_retract w k).faults.trans hretract.faults
  | next hnext => exact ⟨clock_next hnext, .refl _⟩
  | @elapse _ _ k l hnext =>
    obtain ⟨heq, -⟩ | ⟨s, -, -, heq⟩ := elapse_cases { w with loop := l } k
    · rw [heq]
      exact ⟨clock_next hnext, .refl _⟩
    · rw [heq, settle_faults]
      exact ⟨by rw [clock_settle, clock_retract]; exact clock_next hnext, (light_retract { w with loop := l } k).faults⟩
  | @retract _ _ k l hnext =>
    exact ⟨by rw [clock_retract]; exact clock_next hnext, (light_retract { w with loop := l } k).faults⟩
  | @rouse _ _ id l hnext =>
    refine rouse_keeps (I := fun v => v.loop.clock = w.loop.clock ∧ w.faults.Keeps v.faults) ⟨clock_next hnext, .refl _⟩ ?_
    exact ⟨(clock_settle _ _ _).trans (clock_next hnext), by rw [settle_faults]; exact .refl _⟩
  | install =>
    obtain ⟨message, heq⟩ := installStep_eq w
    rw [heq]
    exact ⟨rfl, .refl _⟩

/-- A step is waited for that is due at a given time. -/
structure Awaits (w : World) (i : StepId) (future : FutureId) (timer : TimerId) (due : Float) : Prop where
  step : ∃ seq, w.gate.steps[i]? = some ⟨seq, future, some timer⟩
  waiting : w.outcome? future = none
  holds : w.loop.Holds timer due (.elapse i)

/-- A step that awaits its timer goes on to do so while nothing moves. -/
theorem Awaits.still (h : w.Awaits i future timer due) (hstill : w.Still v) : v.Awaits i future timer due where
  step := hstill.steps ▸ h.step
  waiting := by rw [outcome?, hstill.futures]; exact h.waiting
  holds := hstill.loop ▸ h.holds

/-- What the loop does may change as long as the callback of the step's timer is kept. -/
theorem Awaits.withLoop (h : w.Awaits i future timer due) {l : Loop Callback} (hholds : l.Holds timer due (.elapse i)) :
    Awaits { w with loop := l } i future timer due := ⟨h.step, h.waiting, hholds⟩

/-- A step that awaits its timer goes on to do so when an open future is added. -/
theorem Awaits.addFuture (h : w.Awaits i future timer due) {f : Future} (hopen : f.outcome = none) :
    (w.addFuture f).2.Awaits i future timer due :=
  ⟨h.step, (outcome?_of_push rfl hopen future).trans h.waiting, h.holds⟩

/-- A job may come to wait for any future. -/
theorem Awaits.whenDone (h : w.Awaits i future timer due) (id : FutureId) (j : JobId) :
    (w.whenDone id (.wake j)).Awaits i future timer due := by
  have hopen := (outcome?_whenDone w id (.wake j) future).trans h.waiting
  unfold World.whenDone at hopen ⊢
  split at hopen
  · next hdone =>
    rw [if_pos hdone]
    exact h.withLoop (h.holds.soon nofun)
  · next hdone =>
    rw [if_neg hdone]
    exact ⟨h.step, hopen, h.holds⟩

/-- A future may be settled that is not the one of the step. -/
theorem Awaits.settle (hw : w.Unpaced) (h : w.Awaits i future timer due) (hne : id ≠ future) (o : Outcome) :
    (w.settle id o).Awaits i future timer due where
  step := by rw [settle_gate]; exact h.step
  waiting := by rw [outcome?_settle_of_ne hne]; exact h.waiting
  holds := by
    obtain ⟨cs, hne, hloop⟩ := loop_settle hw id o
    rw [hloop]
    exact h.holds.append (hne i)

/-- Another step may be taken off the gate, its timer being its own. -/
theorem Awaits.retract (htimed : w.Timed) (h : w.Awaits i future timer due) (hne : k ≠ i) :
    (w.retract k).Awaits i future timer due where
  step := by rw [steps_retract, if_neg hne]; exact h.step
  waiting := by rw [outcome?_retract]; exact h.waiting
  holds := by
    obtain ⟨seq, hs⟩ := h.step
    rw [loop_retract]
    split
    · next other hother =>
      obtain ⟨t, ht, hother⟩ := Option.bind_eq_some_iff.1 hother
      refine h.holds.cancel fun hsame => hne ?_
      exact htimed.unique k i t _ timer ht hs (hsame ▸ hother) rfl
    · exact h.holds

/-- Another step may be taken off the gate and settled. -/
theorem Awaits.release (hw : w.Wired) (htimed : w.Timed) (h : w.Awaits i future timer due) (hne : k ≠ i)
    (hs : w.gate.steps[k]? = some s) (hstill : (w.retract k).Still u) (o : Outcome) :
    (u.settle s.future o).Awaits i future timer due := by
  have hu : u.Unpaced := fun id f hf => hw.unpaced id f (by rwa [hstill.futures, futures_retract] at hf)
  refine ((h.retract htimed hne).still hstill).settle hu (fun hsame => hne ?_) o
  obtain ⟨seq, hi⟩ := h.step
  exact hw.step_unique k i s _ hs hi hsame

/-- How a step may be settled: it is resolved once it is due, or stopped. -/
inductive Timely (w : World) (due : Float) : Outcome → Prop
  | resolved (hdue : ¬ w.loop.clock < due) : Timely w due (.value .none)
  | cancelled : Timely w due .cancelled
  | rejected {id : FaultId} {f : Fault} (hf : w.faults.get? id = some f) (hkind : f.kind = .cancellation) :
    Timely w due (.fault id)

/-- What was timely stays so where the clock is not set back and the faults are kept. -/
theorem Timely.mono (h : w.Timely due o) (hclock : ¬ w.loop.clock < due → ¬ v.loop.clock < due)
    (hfaults : w.faults.Keeps v.faults) : v.Timely due o := by
  cases h with
  | resolved hdue => exact .resolved (hclock hdue)
  | cancelled => exact .cancelled
  | rejected hf hkind =>
    obtain ⟨g, hg, hagrees⟩ := hfaults _ _ hf
    exact .rejected hg (hagrees.kind.trans hkind)

/-- A step that is due at a given time, and is waited for or has been settled in time. -/
inductive Punctual (w : World) (i : StepId) (future : FutureId) (timer : TimerId) (due : Float) : Prop
  | waiting (hawaits : w.Awaits i future timer due)
  | settled {s : PacedStep} {o : Outcome} (hs : w.gate.steps[i]? = some s) (hfuture : s.future = future)
    (ho : w.outcome? future = some o) (htimely : w.Timely due o)

/-- A step that is settled in time stays so. -/
theorem Punctual.lasts (h : Piece b n w v) (hw : w.Wired) (hs : w.gate.steps[i]? = some s) (hfuture : s.future = future)
    (ho : w.outcome? future = some o) (htimely : w.Timely due o) : v.Punctual i future timer due := by
  obtain ⟨t, ht, hsame, hout⟩ := (h.parts hw).settled hs (hfuture ▸ ho)
  have hsame := hsame.trans hfuture
  exact .settled ht hsame (hsame ▸ hout) (htimely.mono (by rw [h.frame.1]; exact id) h.frame.2)

/-- The callback of a step's timer resolves it, once it is called. -/
theorem punctual_elapse (hw : w.Wired) (hs : w.gate.steps[i]? = some s) (hopen : w.outcome? s.future = none)
    (hdue : ¬ w.loop.clock < due) : (w.elapse i).Punctual i s.future timer due := by
  obtain ⟨-, hdone⟩ | ⟨t, ht, -, heq⟩ := elapse_cases w i
  · obtain ⟨o, ho⟩ := isDone_iff.1 (hdone s hs)
    rw [hopen] at ho
    cases ho
  · rw [hs] at ht
    cases ht
    obtain ⟨f, hf, -⟩ := hw.step_future i s hs
    have hfuture : (w.retract i).futures[s.future]? = some f := by rw [futures_retract]; exact hf
    have hfopen : f.outcome = none := (outcome?_of_get hf).symm.trans hopen
    obtain ⟨timer', ht⟩ := (light_retract w i).step i s hs
    rw [heq]
    refine .settled (s := { s with timer := timer' }) (by rw [settle_gate]; exact ht) rfl
      (outcome?_settle_of_open hfuture hfopen _) (.resolved ?_)
    rw [clock_settle, clock_retract]
    exact hdue

/-- The step is stopped. -/
theorem Awaits.reject (hw : w.Wired) (h : w.Awaits i future timer due) (hretract : (w.retract i).Steady u) {e : FaultId}
    {f : Fault} (hf : u.faults.get? e = some f) (hkind : f.kind = .cancellation)
    (hsteady : (u.settle future (.fault e)).Steady v) : v.Punctual i future timer due := by
  obtain ⟨seq, hs⟩ := h.step
  obtain ⟨g, hg, -⟩ := hw.step_future i _ hs
  have hfuture : u.futures[future]? = some g := by rw [hretract.futures, futures_retract]; exact hg
  have hgopen : g.outcome = none := (outcome?_of_get hg).symm.trans h.waiting
  obtain ⟨timer', ht⟩ := (light_retract w i).step i _ hs
  have hrejected : (u.settle future (.fault e)).Timely due (.fault e) := .rejected (by rw [settle_faults]; exact hf) hkind
  refine .settled (by rw [hsteady.steps, settle_gate, hretract.steps]; exact ht) rfl ?_
    (hrejected.mono (by rw [hsteady.loop]; exact id) hsteady.faults)
  rw [outcome?, hsteady.futures]
  exact outcome?_settle_of_open hfuture hgopen _

/-- The step's future is cancelled. -/
theorem Awaits.cancel (hw : w.Wired) (h : w.Awaits i future timer due) :
    (w.settle future .cancelled).Punctual i future timer due := by
  obtain ⟨seq, hs⟩ := h.step
  obtain ⟨f, hf, -⟩ := hw.step_future i _ hs
  have hfopen : f.outcome = none := (outcome?_of_get hf).symm.trans h.waiting
  exact .settled (by rw [settle_gate]; exact hs) rfl (outcome?_settle_of_open hf hfopen _) .cancelled

/-- In each piece a step is kept in time. -/
theorem Awaits.piece (h : Piece b n w v) (hw : w.Wired) (htimed : w.Timed) (hawaits : w.Awaits i future timer due) :
    v.Punctual i future timer due := by
  obtain ⟨seq, hs⟩ := hawaits.step
  have hfuture_ne {k : StepId} {s : PacedStep} (hk : w.gate.steps[k]? = some s) (hne : k ≠ i) : s.future ≠ future :=
    fun hsame => hne (hw.step_unique k i s _ hk hs hsame)
  cases h with
  | steady hsteady => exact .waiting (hawaits.still hsteady.toStill)
  | addFuture hopen _ hsteady => exact .waiting ((hawaits.addFuture hopen).still hsteady.toStill)
  | @soon _ _ _ c hc => exact .waiting (hawaits.withLoop (hawaits.holds.soon (hc.ne_elapse i)))
  | @later _ _ _ delay c hc => exact .waiting (hawaits.withLoop (hawaits.holds.later delay (hc.ne_elapse i)))
  | await _ id j => exact .waiting (hawaits.whenDone id j)
  | @settle _ _ _ id o _ _ hother => exact .waiting (hawaits.settle hw.unpaced (hother i _ hs).symm o)
  | @cancel _ _ _ k s hk hopen =>
    by_cases hne : k = i
    · subst hne
      rw [hs] at hk
      cases hk
      exact hawaits.cancel hw
    · exact .waiting (hawaits.settle hw.unpaced (hfuture_ne hk hne) _)
  | @reject _ _ _ u _ k s e f hk hopen hretract hf hkind hsteady =>
    by_cases hne : k = i
    · subst hne
      rw [hs] at hk
      cases hk
      exact hawaits.reject hw hretract hf hkind hsteady
    · exact .waiting ((hawaits.release hw htimed hne hk hretract.toStill _).still hsteady.toStill)
  | next hnext hc => exact .waiting (hawaits.withLoop ((hawaits.holds.next? hnext).2 (hc i).1))
  | @elapse _ _ k l hnext =>
    have hwired := wired_next hw hnext
    by_cases hne : k = i
    · subst hne
      refine punctual_elapse hwired hs hawaits.waiting ?_
      rw [show World.loop { w with loop := l } = l from rfl, clock_next hnext]
      exact (hawaits.holds.next? hnext).1 rfl
    · have htaken := hawaits.withLoop ((hawaits.holds.next? hnext).2 fun h => hne (by cases h; rfl))
      have hl : Timed { w with loop := l } := htimed.of_steps (Nat.le_of_eq (nextTimer_next hnext).symm) rfl
      obtain ⟨heq, -⟩ | ⟨s, hk, -, heq⟩ := elapse_cases { w with loop := l } k
      · rw [heq]
        exact .waiting htaken
      · rw [heq]
        exact .waiting (htaken.release hwired hl hne hk (.refl _) _)
  | @retract _ _ k l hnext =>
    have htaken := hawaits.withLoop ((hawaits.holds.next? hnext).2 nofun)
    have hl : Timed { w with loop := l } := htimed.of_steps (Nat.le_of_eq (nextTimer_next hnext).symm) rfl
    refine .waiting (htaken.retract hl fun hne => ?_)
    -- a step is taken off by its callback only once it is settled
    obtain ⟨s, hk, hdone⟩ := hw.queued _ ((Loop.Queued.of_next? hnext).2 _ rfl)
    rw [hne, hs] at hk
    cases hk
    obtain ⟨o, ho⟩ := isDone_iff.1 hdone
    have hopen := hawaits.waiting
    rw [ho] at hopen
    cases hopen
  | @rouse _ _ id l hnext =>
    obtain ⟨-, -, -, hother⟩ := hw.queued _ ((Loop.Queued.of_next? hnext).2 _ rfl)
    have htaken := hawaits.withLoop ((hawaits.holds.next? hnext).2 nofun)
    refine .waiting (rouse_keeps (I := fun v => v.Awaits i future timer due) htaken ?_)
    exact htaken.settle (w := { w with loop := l }) hw.unpaced (hother i _ hs).symm _
  | install =>
    obtain ⟨message, heq⟩ := installStep_eq w
    rw [heq]
    obtain ⟨f, hf, -⟩ := hw.step_future i _ hs
    refine .waiting ⟨⟨seq, getElem?_push_of_some hs⟩, ?_, hawaits.holds.later _ fun h => ?_⟩
    · exact (outcome?_of_get (getElem?_push_of_some hf)).trans ((outcome?_of_get hf).symm.trans hawaits.waiting)
    · have hlt : i < w.gate.steps.size := (Array.getElem?_eq_some_iff.1 hs).1
      cases h
      exact Nat.lt_irrefl _ hlt

/-- Each piece of a change keeps a step punctual, provided the world is wired and its timers are timed. -/
theorem Punctual.piece (h : Piece b n w v) (hw : w.Wired) (htimed : w.Timed) (hpunctual : w.Punctual i future timer due) :
    v.Punctual i future timer due := by
  cases hpunctual with
  | waiting hawaits => exact hawaits.piece h hw htimed
  | settled hs hfuture ho htimely => exact .lasts h hw hs hfuture ho htimely

/-- The clock may go on. -/
theorem Punctual.setClock (h : w.Punctual i future timer due) {clock : Float} (honward : w.loop.clock ≤ clock) :
    (w.setClock clock).Punctual i future timer due := by
  cases h with
  | waiting hawaits => exact .waiting (hawaits.withLoop (hawaits.holds.setClock honward))
  | settled hs hfuture ho htimely =>
    exact .settled hs hfuture ho (htimely.mono (fun hdue hlater => hdue (earlier_of_le honward hlater)) (.refl _))

/-- A timer may be stopped that is not the one of the step. -/
theorem Punctual.cancelTimer (h : w.Punctual i future timer due) {other : TimerId}
    (hspare : ∀ s : PacedStep, w.gate.steps[i]? = some s → s.timer ≠ some other) :
    (w.cancelTimer other).Punctual i future timer due := by
  cases h with
  | waiting hawaits =>
    obtain ⟨seq, hs⟩ := hawaits.step
    exact .waiting (hawaits.withLoop (hawaits.holds.cancel fun hsame => hspare _ hs (hsame ▸ rfl)))
  | settled hs hfuture ho htimely => exact .settled hs hfuture ho (htimely.mono id (.refl _))

/-- The loop is in order, and ends the pacing of none but the steps that there are. -/
structure Clocked (w : World) : Prop where
  regular : w.loop.Regular
  paced : ∀ i, w.loop.Queued (.elapse i) → i < w.gate.steps.size

/-- The gate stays clocked while nothing moves. -/
theorem Clocked.still (h : w.Clocked) (hstill : w.Still v) : v.Clocked where
  regular := hstill.loop ▸ h.regular
  paced i hi := hstill.steps ▸ h.paced i (hstill.loop ▸ hi)

/-- The gate stays clocked with another regular queue that holds no other ends of time. -/
theorem Clocked.withLoop (h : w.Clocked) {l : Loop Callback} (hregular : l.Regular)
    (hqueued : ∀ i, l.Queued (.elapse i) → w.loop.Queued (.elapse i)) : Clocked { w with loop := l } :=
  ⟨hregular, fun i hi => h.paced i (hqueued i hi)⟩

/-- The gate stays clocked when a callback other than an end of time is queued. -/
theorem Clocked.soon (h : w.Clocked) {c : Callback} (hc : ∀ i, c ≠ .elapse i) : (w.soon c).Clocked :=
  h.withLoop (h.regular.soon c) fun i hi => (Loop.queued_soon.1 hi).resolve_right fun hsame => hc i hsame.symm

/-- The gate stays clocked when a future is settled, provided no end of time is attached to one. -/
theorem Clocked.settle (h : w.Clocked) (hw : w.Unpaced) (id : FutureId) (o : Outcome) : (w.settle id o).Clocked where
  regular := by
    obtain ⟨cs, -, hloop⟩ := loop_settle hw id o
    rw [hloop]
    exact h.regular.append _
  paced i hi := by
    rw [settle_gate]
    obtain hi | ⟨f, hf, -, hi⟩ := queued_settle hi
    · exact h.paced i hi
    · exact absurd hi (hw id f hf i)

/-- The gate stays clocked when a step is retracted. -/
theorem Clocked.retract (h : w.Clocked) (i : StepId) : (w.retract i).Clocked where
  regular := by
    rw [loop_retract]
    split
    · exact h.regular.cancel _
    · exact h.regular
  paced k hk := by
    have hqueued : w.loop.Queued (.elapse k) := by
      rw [loop_retract] at hk
      split at hk
      · exact hk.of_cancel
      · exact hk
    obtain ⟨s, hs⟩ : ∃ s, w.gate.steps[k]? = some s := ⟨_, Array.getElem?_eq_getElem (h.paced k hqueued)⟩
    obtain ⟨timer, ht⟩ := (light_retract w i).step k s hs
    exact (Array.getElem?_eq_some_iff.1 ht).1

/-- Each part of a change of a wired world keeps the gate clocked. -/
theorem Part.clocked (h : Part b n w v) (hw : w.Wired) (hclocked : w.Clocked) : v.Clocked := by
  have htaken {c : Option Callback} {l : Loop Callback} (hnext : w.loop.next? = some (c, l)) :
      Clocked { w with loop := l } :=
    hclocked.withLoop (hclocked.regular.next? hnext) fun i hi => (Loop.Queued.of_next? hnext).1 _ hi
  cases h with
  | still hstill => exact hclocked.still hstill
  | clock => exact ⟨⟨hclocked.regular.ordered, hclocked.regular.batch⟩, hclocked.paced⟩
  | @addFuture _ _ _ _ f _ _ hstill =>
    have hadded : (w.addFuture f).2.Clocked := ⟨hclocked.regular, hclocked.paced⟩
    exact hadded.still hstill
  | soon _ hc => exact hclocked.soon hc.ne_elapse
  | later _ delay hc => exact hclocked.withLoop (hclocked.regular.later delay _) fun i hi =>
      (Loop.queued_later.1 hi).resolve_right (hc.ne_elapse i).symm
  | dropTimer _ timer => exact hclocked.withLoop (hclocked.regular.cancel timer) fun _ hi => hi.of_cancel
  | await _ future j =>
    unfold whenDone
    split
    · exact hclocked.soon nofun
    · exact ⟨hclocked.regular, hclocked.paced⟩
  | settle | cancel => exact hclocked.settle hw.unpaced _ _
  | @release _ _ _ u _ i s o _ _ hretract _ hstill =>
    have hu : u.Unpaced := fun id f hf => hw.unpaced id f (by rwa [hretract.futures, futures_retract] at hf)
    exact (((hclocked.retract i).still hretract).settle hu _ _).still hstill
  | next hnext => exact htaken hnext
  | retract hnext => exact (htaken hnext).retract _
  | @rouse _ _ id l hnext =>
    exact rouse_keeps (htaken hnext) ((htaken hnext).settle (w := { w with loop := l }) hw.unpaced id _)
  | install =>
    obtain ⟨message, heq⟩ := installStep_eq w
    rw [heq]
    refine ⟨hclocked.regular.later _ _, fun i hi => ?_⟩
    change i < (w.gate.steps.push _).size
    rw [Array.size_push]
    obtain hi | hi := Loop.queued_later.1 hi
    · exact Nat.lt_succ_of_lt (hclocked.paced i hi)
    · cases hi
      exact Nat.lt_succ_self _

/-- The parts of a change, one after the other, keep the gate clocked. -/
theorem PartsOf.clocked (h : PartsOf b n w v) (hw : w.Clocked) : v.Clocked :=
  h.keeps (fun _ _ hwired hpart hclocked => hpart.clocked hwired hclocked) hw

/-- A new step is due after the interval that is set. -/
theorem punctual_installStep (hw : w.Clocked) :
    w.installStep.2.Punctual w.gate.steps.size w.futures.size w.loop.nextTimer (w.loop.clock + w.gate.interval) := by
  obtain ⟨message, heq⟩ := installStep_eq w
  rw [heq]
  refine .waiting ⟨⟨w.gate.seq, Array.getElem?_push_size⟩, ?_, Loop.holds_later _ fun hqueued => ?_⟩
  · exact (outcome?_of_get (w := { w with futures := w.futures.push _ }) Array.getElem?_push_size)
  · exact Nat.lt_irrefl _ (hw.paced _ hqueued)

end SteppedLogo.World
