import SteppedLogo.Proofs.World.Parts

namespace SteppedLogo

namespace Loop

variable {α : Type} {l : Loop α} {id other : TimerId}

/-- Stopping a timer leaves the entries of other timers alone, those that are still to come. -/
theorem timers_cancel_of_ne (l : Loop α) (hne : id ≠ other) :
    (l.cancel id).timers.filter (·.id == other) = l.timers.filter (·.id == other) := by
  simp only [cancel, List.filter_filter]
  refine List.filter_congr fun t _ => ?_
  by_cases h : t.id = other
  · simp [h, hne.symm]
  · simp [h]

/-- Stopping a timer leaves the entries of other timers alone, those that are ready. -/
theorem ready_cancel_of_ne (l : Loop α) (hne : id ≠ other) :
    (l.cancel id).ready.filter (·.timer == some other) = l.ready.filter (·.timer == some other) := by
  simp only [cancel, List.filter_map]
  have hfilter : l.ready.filter ((·.timer == some other) ∘ Ready.drop id) =
      l.ready.filter (·.timer == some other) := by
    refine List.filter_congr fun r _ => ?_
    simp only [Function.comp, Ready.drop]
    split <;> rfl
  rw [hfilter]
  refine (List.map_congr_left fun r hr => ?_).trans (List.map_id _)
  have htimer : r.timer = some other := by simpa using (List.mem_filter.1 hr).2
  have hkeep : r.timer ≠ some id := by
    rw [htimer]
    exact fun h => hne (Option.some.inj h).symm
  rw [Ready.drop, if_neg hkeep, id_def]

end Loop

namespace World

variable {u v w : World} {i k : StepId} {s : PacedStep} {b n : Bool}

/-- Of the steps only the one that is taken off loses its timer. -/
theorem steps_retract (w : World) (i k : StepId) : (w.retract i).gate.steps[k]? =
    if i = k then (w.gate.steps[k]?).map ({ · with timer := none }) else w.gate.steps[k]? := by
  have hoff (u : World) : (if u.gate.pending = some i then u.modifyGate ({ · with pending := none })
      else u).gate.steps = u.gate.steps := by
    split <;> rfl
  unfold retract
  cases htimer : (w.pacedStep? i).bind PacedStep.timer with
  | none =>
    dsimp only
    rw [hoff]
    split
    · next h =>
      subst h
      cases hs : w.gate.steps[i]? with
      | none => rfl
      | some s =>
        have hnone : s.timer = none := by simpa [pacedStep?, hs] using htimer
        rw [Option.map_some, ← hnone]
    · rfl
  | some timer =>
    dsimp only
    rw [hoff]
    exact Array.getElem?_modify

/-- The timer of a step is stopped when the step is taken off. -/
theorem loop_retract (w : World) (i : StepId) : (w.retract i).loop =
    match (w.gate.steps[i]?).bind PacedStep.timer with
    | some timer => w.loop.cancel timer
    | none => w.loop := by
  unfold retract pacedStep?
  cases (w.gate.steps[i]?).bind PacedStep.timer with
  | none =>
    dsimp only
    split <;> rfl
  | some timer =>
    dsimp only
    split <;> rfl

theorem nextTimer_retract (w : World) (i : StepId) : (w.retract i).loop.nextTimer = w.loop.nextTimer := by
  rw [loop_retract]
  split <;> rfl

theorem nextTimer_settle (w : World) (id : FutureId) (o : Outcome) :
    (w.settle id o).loop.nextTimer = w.loop.nextTimer := by
  rw [settle_eq]

/-- The timer of a step is that of no other one, and none that is still to be set. -/
structure Timed (w : World) : Prop where
  set : ∀ (i : StepId) (s : PacedStep) (t : TimerId), w.gate.steps[i]? = some s → s.timer = some t →
    t < w.loop.nextTimer
  unique : ∀ (i k : StepId) (s s' : PacedStep) (t : TimerId), w.gate.steps[i]? = some s →
    w.gate.steps[k]? = some s' → s.timer = some t → s'.timer = some t → i = k

/-- No step is given a timer: each has the one that it had, or none. -/
structure Relieves (w v : World) : Prop where
  next : w.loop.nextTimer ≤ v.loop.nextTimer
  steps : ∀ (i : StepId) (s : PacedStep) (t : TimerId), v.gate.steps[i]? = some s → s.timer = some t →
    ∃ old : PacedStep, w.gate.steps[i]? = some old ∧ old.timer = some t

theorem Relieves.trans (huv : u.Relieves v) (hvw : v.Relieves w) : u.Relieves w where
  next := Nat.le_trans huv.next hvw.next
  steps i s t hs ht := by
    obtain ⟨old, hold, htimer⟩ := hvw.steps i s t hs ht
    exact huv.steps i old t hold htimer

theorem relieves_of_steps (hnext : w.loop.nextTimer ≤ v.loop.nextTimer) (hsteps : v.gate.steps = w.gate.steps) :
    w.Relieves v := ⟨hnext, fun _ s _ hs ht => ⟨s, hsteps ▸ hs, ht⟩⟩

theorem relieves_retract (w : World) (i : StepId) : w.Relieves (w.retract i) where
  next := Nat.le_of_eq (nextTimer_retract w i).symm
  steps k s t hs ht := by
    rw [steps_retract] at hs
    split at hs
    · obtain ⟨old, -, rfl⟩ := Option.map_eq_some_iff.1 hs
      cases ht
    · exact ⟨s, hs, ht⟩

theorem Still.relieves (h : w.Still v) : w.Relieves v := relieves_of_steps (Nat.le_of_eq (by rw [h.loop])) h.steps

theorem relieves_settle (w : World) (id : FutureId) (o : Outcome) : w.Relieves (w.settle id o) :=
  relieves_of_steps (Nat.le_of_eq (nextTimer_settle w id o).symm) (by rw [settle_gate])

theorem nextTimer_next {α : Type} {l l' : Loop α} {c : Option α} (hnext : l.next? = some (c, l')) :
    l'.nextTimer = l.nextTimer := by
  obtain ⟨r, rest, -, -, rfl⟩ := Loop.next?_eq_some hnext
  unfold Loop.gathered
  split <;> rfl

/-- No step is given a timer but a new one. -/
theorem Part.relieves (h : Part b n w v) : w.Relieves v ∨ v = w.installStep.2 := by
  cases h with
  | still hstill => exact .inl hstill.relieves
  | @addFuture _ _ _ _ f _ _ hstill =>
    have hadded : w.Relieves (w.addFuture f).2 := relieves_of_steps (Nat.le_refl _) rfl
    exact .inl (hadded.trans hstill.relieves)
  | clock | soon | dropTimer => exact .inl (relieves_of_steps (Nat.le_refl _) rfl)
  | later => exact .inl (relieves_of_steps (Nat.le_succ _) rfl)
  | await future j =>
    unfold whenDone
    split <;> exact .inl (relieves_of_steps (Nat.le_refl _) rfl)
  | settle | cancel => exact .inl (relieves_settle w _ _)
  | release hs hopen hretract ho hstill =>
    exact .inl ((((relieves_retract w _).trans hretract.relieves).trans (relieves_settle _ _ _)).trans hstill.relieves)
  | next hnext => exact .inl (relieves_of_steps (Nat.le_of_eq (nextTimer_next hnext).symm) rfl)
  | @retract _ _ i l hnext =>
    have htaken : w.Relieves { w with loop := l } := relieves_of_steps (Nat.le_of_eq (nextTimer_next hnext).symm) rfl
    exact .inl (htaken.trans (relieves_retract _ i))
  | @rouse _ _ id l hnext =>
    have htaken : w.Relieves { w with loop := l } := relieves_of_steps (Nat.le_of_eq (nextTimer_next hnext).symm) rfl
    exact .inl (rouse_keeps htaken (htaken.trans (relieves_settle _ id _)))
  | install => exact .inr rfl

theorem Timed.relieves (hw : w.Timed) (h : w.Relieves v) : v.Timed where
  set i s t hs ht := by
    obtain ⟨old, hold, htimer⟩ := h.steps i s t hs ht
    exact Nat.lt_of_lt_of_le (hw.set i old t hold htimer) h.next
  unique i k s s' t hs hs' ht ht' := by
    obtain ⟨old, hold, htimer⟩ := h.steps i s t hs ht
    obtain ⟨old', hold', htimer'⟩ := h.steps k s' t hs' ht'
    exact hw.unique i k old old' t hold hold' htimer htimer'

theorem Timed.of_steps (hw : w.Timed) (hnext : w.loop.nextTimer ≤ v.loop.nextTimer)
    (hsteps : v.gate.steps = w.gate.steps) : v.Timed := hw.relieves (relieves_of_steps hnext hsteps)

/-- A new step has a new timer. -/
theorem Timed.install (hw : w.Timed) : w.installStep.2.Timed := by
  obtain ⟨message, heq⟩ := installStep_eq w
  rw [heq]
  constructor
  · intro i s t hs ht
    obtain hs | ⟨-, rfl⟩ := getElem?_push_eq_some.1 hs
    · exact Nat.lt_succ_of_lt (hw.set i s t hs ht)
    · cases ht
      exact Nat.lt_succ_self _
  · intro i k s s' t hs hs' ht ht'
    obtain hs | ⟨rfl, rfl⟩ := getElem?_push_eq_some.1 hs <;>
      obtain hs' | ⟨rfl, rfl⟩ := getElem?_push_eq_some.1 hs'
    · exact hw.unique i k s s' t hs hs' ht ht'
    · cases ht'
      exact absurd (hw.set i s _ hs ht) (Nat.lt_irrefl _)
    · cases ht
      exact absurd (hw.set k s' _ hs' ht') (Nat.lt_irrefl _)
    · rfl

theorem Part.timed (h : Part b n w v) (hw : w.Timed) : v.Timed := by
  obtain hrelieves | rfl := h.relieves
  · exact hw.relieves hrelieves
  · exact hw.install

theorem PartsOf.timed (h : PartsOf b n w v) (hw : w.Timed) : v.Timed := h.keeps (fun _ _ _ hpart => hpart.timed) hw

/-- A timer that is set, and is not the one of a step. -/
def Spare (w : World) (t : TimerId) : Prop :=
  t < w.loop.nextTimer ∧ ∀ (i : StepId) (s : PacedStep), w.gate.steps[i]? = some s → s.timer ≠ some t

/-- What is no step's timer never becomes one. -/
theorem Part.spare {t : TimerId} (h : Part b n w v) (ht : w.Spare t) : v.Spare t := by
  obtain hrelieves | rfl := h.relieves
  · refine ⟨Nat.lt_of_lt_of_le ht.1 hrelieves.next, fun i s hs hsame => ?_⟩
    obtain ⟨old, hold, htimer⟩ := hrelieves.steps i s t hs hsame
    exact ht.2 i old hold htimer
  · obtain ⟨message, heq⟩ := installStep_eq w
    rw [heq]
    refine ⟨Nat.lt_succ_of_lt ht.1, fun i s hs hsame => ?_⟩
    obtain hs | ⟨-, rfl⟩ := getElem?_push_eq_some.1 hs
    · exact ht.2 i s hs hsame
    · cases hsame
      exact Nat.lt_irrefl _ ht.1

theorem PartsOf.spare {t : TimerId} (h : PartsOf b n w v) (ht : w.Spare t) : v.Spare t :=
  h.keeps (fun _ _ _ hpart => hpart.spare) ht

theorem Fresh.timed (h : w.Fresh) : w.Timed := by
  constructor
  · intro i s t hs
    simp [h.steps] at hs
  · intro i k s s' t hs
    simp [h.steps] at hs

end World

end SteppedLogo
