import SteppedLogo.Proofs.World.Pieces

namespace SteppedLogo

namespace World

variable {env : Env} {P : Op → Prop} {u v w : World} {id j : JobId} {job : Job} {b n : Bool}

/-- The kinds of parts; the indices tell whether a job may come to wait in it, and whether a callback is taken off
the queue. A step that is not settled
yet is settled by a cancellation that leaves it at the gate, or is released: it is taken off the gate, and
then settled otherwise. -/
inductive Part : Bool → Bool → World → World → Prop
  | still {b n : Bool} {w v : World} (hstill : w.Still v) : Part b n w v
  | clock {b n : Bool} (w : World) (clock : Float) : Part b n w (w.setClock clock)
  | addFuture {b n : Bool} {w v : World} {f : Future} (hopen : f.outcome = none) (hbare : f.callbacks = [])
    (hstill : (w.addFuture f).2.Still v) : Part b n w v
  | soon {b n : Bool} (w : World) {c : Callback} (hc : w.Admits c) : Part b n w (w.soon c)
  | later {b n : Bool} (w : World) (delay : Float) {c : Callback} (hc : w.Admits c) : Part b n w (w.later delay c).2
  | dropTimer {b n : Bool} (w : World) (timer : TimerId) : Part b n w (w.cancelTimer timer)
  | await {n : Bool} (w : World) (future : FutureId) (j : JobId) : Part true n w (w.whenDone future (.wake j))
  | settle {b n : Bool} (w : World) {id : FutureId} (o : Outcome) (hopen : w.isDone id = false)
    (hnap : o = .cancelled ∨ ¬ w.loop.Queued (.rouse id))
    (hother : ∀ (i : StepId) (s : PacedStep), w.gate.steps[i]? = some s → s.future ≠ id) :
    Part b n w (w.settle id o)
  | cancel {b n : Bool} {w : World} {i : StepId} {s : PacedStep} (hs : w.gate.steps[i]? = some s)
    (hopen : w.isDone s.future = false) : Part b n w (w.settle s.future .cancelled)
  | release {b n : Bool} {w u v : World} {i : StepId} {s : PacedStep} {o : Outcome} (hs : w.gate.steps[i]? = some s)
    (hopen : w.isDone s.future = false) (hretract : (w.retract i).Still u) (ho : o ≠ .cancelled)
    (hstill : (u.settle s.future o).Still v) : Part b n w v
  | next {b : Bool} {w : World} {c : Option Callback} {l : Loop Callback} (hnext : w.loop.next? = some (c, l))
    (hc : ∀ i, c ≠ some (.retract i)) : Part b true w { w with loop := l }
  | retract {b : Bool} {w : World} {i : StepId} {l : Loop Callback} (hnext : w.loop.next? = some (some (.retract i), l)) :
    Part b true w (World.retract { w with loop := l } i)
  | rouse {b : Bool} {w : World} {id : FutureId} {l : Loop Callback} (hnext : w.loop.next? = some (some (.rouse id), l)) :
    Part b true w (World.rouse { w with loop := l } id)
  | install {b n : Bool} (w : World) : Part b n w w.installStep.2

/-- Any number of parts, each from a state that is wired; in none of them a job comes to wait, unless `b`
allows for it, and no callback is taken off the queue, unless `n` does. -/
abbrev PartsOf (b n : Bool) : World → World → Prop := Relation.ReflTransGen fun w v => w.Wired ∧ Part b n w v

/-- Any number of parts. -/
abbrev Parts : World → World → Prop := PartsOf true true

/-- What each part keeps is kept by any number of them. -/
theorem PartsOf.keeps {I : World → Prop} (hpart : ∀ w v, w.Wired → Part b n w v → I w → I v) (h : PartsOf b n w v)
    (hw : I w) : I v := by
  induction h with
  | refl => exact hw
  | tail _ hstep ih => exact hpart _ _ hstep.1 hstep.2 ih

theorem Part.parts (h : Part b n w v) (hw : w.Wired) : PartsOf b n w v := .single ⟨hw, h⟩

theorem Still.parts (h : w.Still v) (hw : w.Wired) : PartsOf b n w v := (Part.still h).parts hw

theorem wired_next {c : Option Callback} {l : Loop Callback} (hw : w.Wired) (hnext : w.loop.next? = some (c, l)) :
    Wired { w with loop := l } :=
  hw.mono (.refl w) (.of_eq rfl) (fun _ job hj => .inl ⟨job, hj, rfl⟩) (fun _ h => h)
    (fun c hc => .inl ((Loop.Queued.of_next? hnext).1 c hc)) fun _ f _ hf hc => .inl ⟨f, hf, hc⟩

theorem parts_elapse (hw : w.Wired) (i : StepId) : PartsOf b n w (w.elapse i) := by
  obtain ⟨heq, -⟩ | ⟨s, hs, hopen, heq⟩ := elapse_cases w i
  · rw [heq]
  · rw [heq]
    exact (Part.release hs hopen (.refl _) (fun h => by cases h) (.refl _)).parts hw

/-- Each piece is made of parts. -/
theorem Piece.parts (h : Piece b n w v) (hw : w.Wired) : PartsOf b n w v := by
  cases h with
  | steady hsteady => exact hsteady.toStill.parts hw
  | addFuture hopen hbare hsteady => exact (Part.addFuture hopen hbare hsteady.toStill).parts hw
  | soon _ hc => exact (Part.soon w hc).parts hw
  | later _ delay hc => exact (Part.later w delay hc).parts hw
  | await _ future j => exact (Part.await w future j).parts hw
  | settle _ o hopen hnap hother => exact (Part.settle w o hopen hnap hother).parts hw
  | cancel hs hopen => exact (Part.cancel hs hopen).parts hw
  | reject hs hopen hretract _ _ hsteady =>
    exact (Part.release hs hopen hretract.toStill (fun h => by cases h) hsteady.toStill).parts hw
  | next hnext hc => exact (Part.next hnext fun i => (hc i).2).parts hw
  | @elapse _ _ i l hnext =>
    have htaken : PartsOf b true w { w with loop := l } := (Part.next hnext fun k h => by cases h).parts hw
    exact htaken.trans (parts_elapse (wired_next hw hnext) i)
  | retract hnext => exact (Part.retract hnext).parts hw
  | rouse hnext => exact (Part.rouse hnext).parts hw
  | install => exact (Part.install w).parts hw

theorem PiecesOf.parts (h : PiecesOf b n w v) : PartsOf b n w v := by
  induction h with
  | refl => exact .refl
  | tail _ hstep ih => exact ih.trans (hstep.2.parts hstep.1)

theorem Touch.parts (h : Touch env w v) (hw : w.Sound) : PartsOf b n w v := by
  obtain hnudge | ⟨timer, rfl⟩ := h.nudge_or
  · exact (hnudge.pieces hw).parts
  · exact (Part.dropTimer w timer).parts hw.toWired

theorem Change.parts (h : Change env w v) (hw : w.Sound) : PartsOf b n w v := by
  cases h with
  | touch htouch => exact htouch.parts hw
  | defer => exact (Part.soon w (admits_deed w _)).parts hw.toWired
  | deferLater delay => exact (Part.later w delay (admits_deed w _)).parts hw.toWired
  | install => exact (Part.install w).parts hw.toWired
  | installFor id => exact (pieces_installFor hw id).parts

/-- All that running code does is made of parts, and it makes no job wait. -/
theorem Changes.partsOf (h : Changes env w v) (hw : w.Sound) : PartsOf b n w v := by
  induction h with
  | refl => exact .refl
  | tail hbefore hchange ih => exact ih.trans (hchange.parts (Changes.grows hbefore hw).1)

theorem Changes.parts (h : Changes env w v) (hw : w.Sound) : Parts w v := h.partsOf hw

theorem parts_perform (env : Env) (o : Op) (hw : w.Sound) : PartsOf b n w (w.perform env o).2 :=
  (perform_changes o w).partsOf hw

end World

namespace Scene

open World

variable {env : Env} {P : Op → Prop} {s t : Scene} {u v w : World} {id : JobId} {job : Job} {b n : Bool}

theorem parts_advance {r : Routine (Except FaultId Value)} (hw : w.Sound) (hup : w.Up id job) :
    (Turn.advance env ⟨id, job, r⟩ w).Intact ∧ Parts w (Turn.advance env ⟨id, job, r⟩ w).world := by
  have hputDown (stop : Stop (Except FaultId Value)) :
      ({ world := w.putDown id job stop } : Scene).Intact ∧ Parts w (w.putDown id job stop) :=
    ⟨intact_of_sound (proceeds_putDown hup stop hw).1 fun _ h => (by cases h), (pieces_putDown hw hup stop).parts⟩
  cases r with
  | done result => exact hputDown (.finished result)
  | op o k =>
    obtain ⟨hsound, hextends⟩ := grows_perform env o w hw
    refine ⟨⟨hsound, fun t ht => ?_⟩, parts_perform env o hw⟩
    cases ht
    exact hextends.up hup
  | await future k =>
    cases future with
    | none => exact hputDown (.paused k)
    | some future =>
      simp only [Turn.advance]
      cases ho : w.outcome? future with
      | none => exact hputDown (.parked future k)
      | some o =>
        have haside := w.aside_receive o
        obtain ⟨hsound, hextends⟩ := haside.light.grows hw
        refine ⟨⟨hsound, fun t ht => ?_⟩, haside.still.parts hw.toWired⟩
        cases ht
        exact hextends.up hup

/-- Each step is made of parts. -/
theorem Step.parts (h : Step env P s t) (hs : s.Intact) : t.Intact ∧ Parts s.world t.world := by
  cases h with
  | clock w clock =>
    exact ⟨intact_of_sound ((light_setClock w clock).grows hs.sound).1 fun _ h => (by cases h),
      (Part.clock w clock).parts hs.sound.toWired⟩
  | @perform w o ho =>
    exact ⟨intact_of_sound (grows_perform env o w hs.sound).1 fun _ h => (by cases h), parts_perform env o hs.sound⟩
  | @spawn w code hcode =>
    have hgrows := grows_spawn w code hs.sound
    exact ⟨intact_of_sound hgrows.1 fun _ h => (by cases h), (pieces_addJob hs.sound.toWired code none).parts⟩
  | next hnext =>
    obtain ⟨w, activity⟩ := s
    cases activity with
    | turn u =>
      cases hnext
      exact parts_advance hs.sound (hs.turn u rfl)
    | deed c =>
      cases c with
      | done result =>
        cases hnext
        exact ⟨intact_of_sound hs.sound fun _ h => (by cases h), .refl⟩
      | op o k =>
        cases hnext
        exact ⟨intact_of_sound (grows_perform env o w hs.sound).1 fun _ h => (by cases h), parts_perform env o hs.sound⟩
    | none =>
      simp only [next?] at hnext
      split at hnext
      · cases hnext
      · next l hloop =>
        cases hnext
        exact ⟨intact_of_sound ((light_next hs.sound hloop).grows hs.sound).1 fun _ h => (by cases h),
          (Part.next hloop fun i h => by cases h).parts hs.sound.toWired⟩
      · next c l hloop =>
        cases hnext
        exact And.imp_right PiecesOf.parts (pieces_called hs.sound hloop)

theorem Steps.parts (h : Steps env P s t) (hs : s.Intact) : t.Intact ∧ Parts s.world t.world := by
  induction h with
  | refl => exact ⟨hs, .refl⟩
  | tail _ hstep ih =>
    obtain ⟨hintact, hparts⟩ := hstep.parts ih.1
    exact ⟨hintact, ih.2.trans hparts⟩

theorem Reachable.parts (h : Reachable env P s) : s.Intact ∧ ∃ w : World, w.Fresh ∧ Parts w s.world := by
  obtain ⟨w, hfresh, hsteps⟩ := h
  obtain ⟨hintact, hparts⟩ := Steps.parts hsteps (intact_of_sound hfresh.sound fun _ h => by cases h)
  exact ⟨hintact, w, hfresh, hparts⟩

end Scene

end SteppedLogo
