import SteppedLogo.Proofs.Gate.Apart

namespace SteppedLogo

/-- Whether a callback takes the step off the gate. -/
def Callback.isRetract (i : StepId) : Callback → Bool
  | .retract k => k == i
  | _ => false

theorem Callback.isRetract_iff {i : StepId} {c : Callback} : c.isRetract i = true ↔ c = .retract i := by
  cases c <;> simp [isRetract]

/-- A callback that is about no step retracts none. -/
theorem Callback.isRetract_of_step? {c : Callback} (hc : c.step? = none) (i : StepId) : c.isRetract i = false := by
  cases c with
  | elapse | retract => cases hc
  | run | wake | rouse | deed => rfl

namespace Loop

variable {l l' : Loop Callback} {i : StepId} {c : Callback}

/-- No timer takes a step off the gate, so that the callback that does it cannot be stopped. -/
structure Unstopped (l : Loop Callback) : Prop where
  timers : ∀ t ∈ l.timers, ∀ i, t.callback ≠ .retract i
  ready : ∀ r ∈ l.ready, ∀ i, r.callback = some (.retract i) → r.timer = none

/-- Where no timer takes a step off the gate, none does once callbacks are added at the end of the queue. -/
theorem Unstopped.append (h : l.Unstopped) (cs : List Callback) (htimers : l'.timers = l.timers)
    (hready : l'.ready = l.ready ++ cs.map fun c => { callback := some c }) : l'.Unstopped where
  timers := by
    rw [htimers]
    exact h.timers
  ready r hr i hc := by
    rw [hready] at hr
    obtain hr | hr := List.mem_append.1 hr
    · exact h.ready r hr i hc
    · obtain ⟨d, -, rfl⟩ := List.mem_map.1 hr
      rfl

/-- Where no timer takes a step off the gate, none does once one is set that is no retraction. -/
theorem Unstopped.later (h : l.Unstopped) (delay : Float) (hc : ∀ i, c ≠ .retract i) : (l.later delay c).2.Unstopped where
  timers t ht i := by
    obtain rfl | ht := mem_insertByDue.1 ht
    · exact hc i
    · exact h.timers t ht i
  ready := h.ready

/-- Where no timer takes a step off the gate, none does once one is cancelled. -/
theorem Unstopped.cancel (h : l.Unstopped) (id : TimerId) : (l.cancel id).Unstopped where
  timers t ht := h.timers t (List.mem_filter.1 ht).1
  ready r hr i hc := by
    obtain ⟨old, hold, rfl⟩ := List.mem_map.1 hr
    unfold Ready.drop at hc ⊢
    split at hc
    · cases hc
    · next hother =>
      rw [if_neg hother]
      exact h.ready old hold i hc

/-- Where no timer takes a step off the gate, none does once those that are due are gathered. -/
theorem Unstopped.gathered (h : l.Unstopped) : l.gathered.Unstopped := by
  refine ⟨fun t ht => h.timers t (mem_timers_gathered ht), fun r hr i hc => ?_⟩
  unfold Loop.gathered at hr
  split at hr
  · obtain hr | hr := List.mem_append.1 hr
    · exact h.ready r hr i hc
    · obtain ⟨t, ht, rfl⟩ := List.mem_map.1 hr
      exact absurd (Option.some.inj hc) (h.timers t ((List.takeWhile_sublist _).subset ht) i)
  · exact h.ready r hr i hc

/-- Where no timer takes a step off the gate, none does once the next callback is taken off the queue. -/
theorem Unstopped.next (h : l.Unstopped) {c : Option Callback} (hnext : l.next? = some (c, l')) : l'.Unstopped := by
  obtain ⟨r, rest, hready, rfl, rfl⟩ := next?_eq_some hnext
  exact ⟨h.gathered.timers, fun s hs => h.gathered.ready s (by rw [hready]; exact .tail _ hs)⟩

/-- How often it is queued that a step is taken off the gate. -/
def leaving (l : Loop Callback) (i : StepId) : Nat := l.ready.countP (·.callback.any (Callback.isRetract i))

/-- Adding callbacks adds to the retractions of a step as many as there are among them. -/
theorem leaving_append (cs : List Callback) (hready : l'.ready = l.ready ++ cs.map fun c => { callback := some c }) :
    l'.leaving i = l.leaving i + cs.countP (Callback.isRetract i) := by
  simp only [leaving, hready, List.countP_append, List.countP_map]
  rfl

/-- Cancelling a timer leaves the retractions under way, provided none of them is a timer. -/
theorem leaving_cancel (h : l.Unstopped) (id : TimerId) : (l.cancel id).leaving i = l.leaving i := by
  simp only [leaving, cancel, List.countP_map]
  refine List.countP_congr fun r hr => ?_
  simp only [Function.comp, Ready.drop]
  split
  · next htimer =>
    cases hc : r.callback with
    | none => rfl
    | some c =>
      have hother : c.isRetract i ≠ true := by
        intro hretract
        rw [Callback.isRetract_iff.1 hretract] at hc
        rw [h.ready r hr i hc] at htimer
        cases htimer
      simp [hother]
  · rfl

/-- Gathering the timers that are due leaves the retractions under way, provided none of them is a timer. -/
theorem leaving_gathered (h : l.Unstopped) : l.gathered.leaving i = l.leaving i := by
  unfold gathered
  split
  · have hnone : ((l.timers.takeWhile (isDue l.clock)).map fun t =>
        ({ timer := some t.id, callback := some t.callback } : Ready Callback)).countP
          (·.callback.any (Callback.isRetract i)) = 0 := by
      rw [List.countP_eq_zero]
      intro r hr hretract
      obtain ⟨t, ht, rfl⟩ := List.mem_map.1 hr
      exact h.timers t ((List.takeWhile_sublist _).subset ht) i (Callback.isRetract_iff.1 hretract)
    simp only [leaving, gather, List.countP_append, hnone, Nat.add_zero]
  · rfl

/-- To take a callback is to have it queued once less. -/
theorem leaving_next (h : l.Unstopped) {c : Option Callback} (hnext : l.next? = some (c, l')) :
    l.leaving i = l'.leaving i + if c.any (Callback.isRetract i) then 1 else 0 := by
  obtain ⟨r, rest, hready, rfl, rfl⟩ := next?_eq_some hnext
  rw [← leaving_gathered h]
  simp only [leaving, hready, List.countP_cons]

/-- The retraction of a step is queued exactly if at least one is under way, provided none is cancelled. -/
theorem queued_retract_iff (h : l.Unstopped) : l.Queued (.retract i) ↔ 0 < l.leaving i := by
  rw [leaving, List.countP_pos_iff]
  constructor
  · rintro (⟨r, hr, hc⟩ | ⟨t, ht, hc⟩)
    · exact ⟨r, hr, by rw [hc]; exact Callback.isRetract_iff.2 rfl⟩
    · exact absurd hc (h.timers t ht i)
  · rintro ⟨r, hr, hretract⟩
    cases hc : r.callback with
    | none =>
      rw [hc] at hretract
      cases hretract
    | some c =>
      rw [hc] at hretract
      exact .inl ⟨r, hr, by rw [hc, Callback.isRetract_iff.1 hretract]⟩

end Loop

namespace World

variable {env : Env} {P : Op → Prop} {u v w : World} {i k : StepId} {s t : PacedStep} {id : FutureId} {f : Future}
  {o : Outcome} {b n : Bool}

/-- How far a step has come: it waits, and is to be taken off the gate once it is settled; it is
cancelled, and the callback that takes it off is queued; or it is settled and off the gate. -/
inductive Stage (w : World) (i : StepId) (s : PacedStep) : Prop
  | waiting {f : Future} (hf : w.futures[s.future]? = some f) (hopen : f.outcome = none) (htimer : s.timer ≠ none)
    (hattached : f.callbacks.countP (Callback.isRetract i) = 1)
  | leaving (hout : w.outcome? s.future = some .cancelled) (htimer : s.timer ≠ none)
    (hqueued : w.loop.leaving i = 1)
  | retracted {o : Outcome} (hout : w.outcome? s.future = some o) (htimer : s.timer = none)
    (hpending : w.gate.pending ≠ some i) (hqueued : o = .cancelled → w.loop.leaving i = 0)

/-- Each step is at one of its stages. -/
structure Staged (w : World) : Prop where
  stage : ∀ (i : StepId) (s : PacedStep), w.gate.steps[i]? = some s → w.Stage i s
  unstopped : w.loop.Unstopped

/-- A step stays at its stage where neither its future nor its place at the gate nor its callback changes. -/
theorem Stage.mono (h : w.Stage i s)
    (hfuture : ∀ f : Future, w.futures[s.future]? = some f → ∃ g : Future, v.futures[s.future]? = some g ∧
      g.outcome = f.outcome ∧ g.callbacks.countP (Callback.isRetract i) = f.callbacks.countP (Callback.isRetract i))
    (hleaving : v.loop.leaving i = w.loop.leaving i)
    (hpending : v.gate.pending = some i → w.gate.pending = some i) : v.Stage i s := by
  have hsame (o : Outcome) (ho : w.outcome? s.future = some o) : v.outcome? s.future = some o := by
    obtain ⟨f, hf, hfo⟩ := get_of_outcome? ho
    obtain ⟨g, hg, hout, -⟩ := hfuture f hf
    rw [outcome?_of_get hg, hout, hfo]
  cases h with
  | waiting hf hopen htimer hattached =>
    obtain ⟨g, hg, hout, hcount⟩ := hfuture _ hf
    exact .waiting hg (hout.trans hopen) htimer (hcount.trans hattached)
  | leaving hout htimer hqueued => exact .leaving (hsame _ hout) htimer (hleaving.trans hqueued)
  | retracted hout htimer hoff hqueued =>
    exact .retracted (hsame _ hout) htimer (fun h => hoff (hpending h)) fun h => hleaving.trans (hqueued h)

/-- A step keeps its stage while the futures and its retractions are as they were and it does not become pending again. -/
theorem Stage.of_futures (h : w.Stage i s) (hfutures : v.futures = w.futures)
    (hleaving : v.loop.leaving i = w.loop.leaving i)
    (hpending : v.gate.pending = some i → w.gate.pending = some i) : v.Stage i s :=
  h.mono (fun f hf => ⟨f, hfutures ▸ hf, rfl, rfl⟩) hleaving hpending

/-- Nothing that waits for a future takes another step off the gate than the one it is of. -/
theorem Wired.countP_retract (hw : w.Wired) (hs : w.gate.steps[i]? = some s) (hother : s.future ≠ id)
    (hf : w.futures[id]? = some f) : f.callbacks.countP (Callback.isRetract i) = 0 := by
  rw [List.countP_eq_zero]
  intro c hc hretract
  rw [Callback.isRetract_iff.1 hretract] at hc
  obtain ⟨t, ht, hid⟩ := hw.attached id f _ hf hc
  rw [hs] at ht
  cases ht
  exact hother hid

/-- While a step waits, nothing is queued that takes it off the gate. -/
theorem Wired.leaving_eq_zero (hw : w.Wired) (hunstopped : w.loop.Unstopped) (hs : w.gate.steps[i]? = some s)
    (hopen : w.isDone s.future = false) : w.loop.leaving i = 0 := by
  by_contra hpos
  obtain ⟨t, ht, hdone⟩ := hw.queued _ ((Loop.queued_retract_iff hunstopped).2 (Nat.pos_of_ne_zero hpos))
  rw [hs] at ht
  cases ht
  rw [hopen] at hdone
  cases hdone

/-- Settling a future queues what waits for it, and no more. -/
theorem leaving_settle (hcount : ∀ f : Future, w.futures[id]? = some f → f.callbacks.countP (Callback.isRetract i) = 0)
    (o : Outcome) : (w.settle id o).loop.leaving i = w.loop.leaving i := by
  obtain ⟨f, hf, hopen⟩ | ⟨-, vain, hsame⟩ := settle_cases w id o
  · have hready : (w.settle id o).loop.ready = w.loop.ready ++ f.callbacks.map fun c => { callback := some c } := by
      rw [settle_of_open hf hopen]
    rw [Loop.leaving_append _ hready, hcount f hf, Nat.add_zero]
  · rw [hsame]

/-- Another future may be settled behind which nothing takes the step off the gate. -/
theorem Stage.settle (h : w.Stage i s) (hother : s.future ≠ id)
    (hcount : ∀ f : Future, w.futures[id]? = some f → f.callbacks.countP (Callback.isRetract i) = 0) (o : Outcome) :
    (w.settle id o).Stage i s := by
  refine h.mono (fun f hf => ⟨f, ?_, rfl, rfl⟩) (leaving_settle hcount o) fun hi => by rwa [settle_gate] at hi
  rw [settle_get, if_neg hother.symm, hf]

/-- Retracting a step leaves the retractions under way, also its own. -/
theorem leaving_retract (hunstopped : w.loop.Unstopped) (i k : StepId) :
    (w.retract k).loop.leaving i = w.loop.leaving i := by
  rw [loop_retract]
  split
  · exact Loop.leaving_cancel hunstopped _
  · rfl

/-- Retracting a step cancels its timer, and stops no retraction. -/
theorem unstopped_retract (hunstopped : w.loop.Unstopped) (k : StepId) : (w.retract k).loop.Unstopped := by
  rw [loop_retract]
  split
  · exact hunstopped.cancel _
  · exact hunstopped

/-- Settling a future queues its callbacks, and stops no retraction. -/
theorem unstopped_settle (hunstopped : w.loop.Unstopped) (id : FutureId) (o : Outcome) :
    (w.settle id o).loop.Unstopped := by
  obtain ⟨cs, -, hloop⟩ := settle_loop w id o
  exact hunstopped.append _ settle_timers (congrArg Loop.ready hloop)

/-- Another step may be taken off the gate. -/
theorem Stage.retract (h : w.Stage i s) (hunstopped : w.loop.Unstopped) (k : StepId) : (w.retract k).Stage i s := by
  refine h.of_futures (futures_retract w k) (leaving_retract hunstopped i k) fun hi => ?_
  rw [pending_retract] at hi
  split at hi
  · cases hi
  · exact hi

theorem get_of_steps_retract (hs : (w.retract k).gate.steps[i]? = some s) (hne : k ≠ i) :
    w.gate.steps[i]? = some s := by
  rwa [steps_retract, if_neg hne] at hs

/-- A change that moves nothing keeps every step at its stage. -/
theorem Staged.still (hw : w.Staged) (h : w.Still v) : v.Staged := by
  refine ⟨fun i s hs => ?_, by rw [h.loop]; exact hw.unstopped⟩
  exact (hw.stage i s (h.steps ▸ hs)).of_futures h.futures (by rw [h.loop]) fun hi => by rwa [h.pending] at hi

/-- A change of the loop alone. -/
theorem Staged.of_loop (hw : w.Staged) {l : Loop Callback} (hunstopped : l.Unstopped)
    (hleaving : ∀ i, l.leaving i = w.loop.leaving i) : Staged { w with loop := l } :=
  ⟨fun i s hs => (hw.stage i s hs).of_futures rfl (hleaving i) fun hi => hi, hunstopped⟩

/-- Queueing a callback that is about no step keeps every step at its stage. -/
theorem Staged.soon (hw : w.Staged) {c : Callback} (hc : c.step? = none) : (w.soon c).Staged := by
  refine hw.of_loop (hw.unstopped.append [c] rfl rfl) fun i => ?_
  rw [Loop.leaving_append (l := w.loop) [c] rfl, List.countP_singleton, Callback.isRetract_of_step? hc]
  rfl

/-- Adding a future keeps every step at its stage. -/
theorem Staged.addFuture (hw : w.Staged) (f : Future) : (w.addFuture f).2.Staged :=
  ⟨fun i s hs => (hw.stage i s hs).mono (fun g hg => ⟨g, getElem?_push_of_some hg, rfl, rfl⟩) rfl fun hi => hi,
    hw.unstopped⟩

/-- A job that waits for a future takes no step off the gate. -/
theorem Staged.await (hw : w.Staged) (future : FutureId) (j : JobId) : (w.whenDone future (.wake j)).Staged := by
  unfold whenDone
  split
  · exact hw.soon rfl
  · refine ⟨fun i s hs => (hw.stage i s hs).mono (fun f hf => ?_) rfl fun hi => hi, hw.unstopped⟩
    rw [Array.getElem?_modify, hf]
    split
    · exact ⟨_, rfl, rfl, by simp [List.countP_append, Callback.isRetract]⟩
    · exact ⟨f, rfl, rfl, rfl⟩

/-- Settling a future of a wired world keeps every step at its stage, provided it is no step's. -/
theorem Staged.settle (hw : w.Staged) (hwired : w.Wired)
    (hother : ∀ (i : StepId) (s : PacedStep), w.gate.steps[i]? = some s → s.future ≠ id) (o : Outcome) :
    (w.settle id o).Staged := by
  refine ⟨fun i s hs => ?_, unstopped_settle hw.unstopped id o⟩
  rw [settle_gate] at hs
  exact (hw.stage i s hs).settle (hother i s hs) (fun f hf => hwired.countP_retract hs (hother i s hs) hf) o

/-- A step that is cancelled stays at the gate until its callback runs. -/
theorem Staged.cancel (hw : w.Staged) (hwired : w.Wired) (hk : w.gate.steps[k]? = some t)
    (hopen : w.isDone t.future = false) : (w.settle t.future .cancelled).Staged := by
  refine ⟨fun i s hs => ?_, unstopped_settle hw.unstopped _ _⟩
  rw [settle_gate] at hs
  by_cases hsame : i = k
  · subst hsame
    rw [hk] at hs
    cases hs
    have hopen' : w.outcome? t.future = none := isDone_eq_false.1 hopen
    cases hw.stage i t hk with
    | waiting hf hfopen htimer hattached =>
      refine .leaving (outcome?_settle_of_open hf hfopen _) htimer ?_
      have hready := congrArg (·.loop.ready) (settle_of_open hf hfopen .cancelled)
      rw [Loop.leaving_append _ hready, hwired.leaving_eq_zero hw.unstopped hk hopen, hattached]
    | leaving hout | retracted hout =>
      rw [hopen'] at hout
      cases hout
  · have hother : s.future ≠ t.future := fun h => hsame (hwired.step_unique i k s t hs hk h)
    exact (hw.stage i s hs).settle hother (fun f hf => hwired.countP_retract hs hother hf) .cancelled

/-- A step is taken off the gate as it is settled otherwise. -/
theorem Staged.release (hw : w.Staged) (hwired : w.Wired) (hk : w.gate.steps[k]? = some t)
    (hopen : w.isDone t.future = false) (hu : (w.retract k).Still u) (ho : o ≠ .cancelled) :
    (u.settle t.future o).Staged := by
  have hunstopped : u.loop.Unstopped := by
    rw [hu.loop]
    exact unstopped_retract hw.unstopped k
  refine ⟨fun i s hs => ?_, unstopped_settle hunstopped _ _⟩
  rw [settle_gate, hu.steps] at hs
  by_cases hsame : k = i
  · subst hsame
    rw [steps_retract, if_pos rfl, hk] at hs
    cases hs
    obtain ⟨f, hf, -⟩ := hwired.step_future k t hk
    have hget : u.futures[t.future]? = some f := by rw [hu.futures, futures_retract, hf]
    have hfopen : f.outcome = none := (outcome?_of_get hf).symm.trans (isDone_eq_false.1 hopen)
    refine .retracted (outcome?_settle_of_open hget hfopen o) rfl (fun hpending => ?_) fun h => absurd h ho
    rw [settle_gate, hu.pending, pending_retract] at hpending
    split at hpending
    · cases hpending
    · next hoff => exact hoff hpending
  · have hs := get_of_steps_retract hs hsame
    have hother : s.future ≠ t.future := fun h => hsame (hwired.step_unique k i t s hk hs h.symm)
    have hretracted : u.Stage i s := ((hw.stage i s hs).retract hw.unstopped k).of_futures hu.futures
      (by rw [hu.loop]) fun hi => by rwa [hu.pending] at hi
    refine hretracted.settle hother (fun f hf => hwired.countP_retract hs hother ?_) o
    rwa [hu.futures, futures_retract] at hf

/-- The callback of a step takes it off the gate for good. -/
theorem Staged.called (hw : w.Staged) (hwired : w.Wired) {l : Loop Callback}
    (hnext : w.loop.next? = some (some (.retract k), l)) : (retract { w with loop := l } k).Staged := by
  have hunstopped : l.Unstopped := hw.unstopped.next hnext
  have hleaving (i : StepId) : w.loop.leaving i = l.leaving i + if k = i then 1 else 0 := by
    rw [Loop.leaving_next hw.unstopped hnext]
    simp [Callback.isRetract]
  refine ⟨fun i s hs => ?_, unstopped_retract (w := { w with loop := l }) hunstopped k⟩
  by_cases hsame : k = i
  · subst hsame
    rw [steps_retract, if_pos rfl] at hs
    obtain ⟨t, ht, rfl⟩ := Option.map_eq_some_iff.1 hs
    have ht : w.gate.steps[k]? = some t := ht
    obtain ⟨t', ht', hdone⟩ := hwired.queued _ ((Loop.Queued.of_next? hnext).2 _ rfl)
    rw [ht] at ht'
    cases ht'
    obtain ⟨o, ho⟩ := isDone_iff.1 hdone
    have hout : (retract { w with loop := l } k).outcome? t.future = some o := by
      rw [World.outcome?, futures_retract]
      exact ho
    refine .retracted hout rfl (fun hpending => ?_) fun hcancelled => ?_
    · rw [pending_retract] at hpending
      split at hpending
      · cases hpending
      · next hoff => exact hoff hpending
    · -- it was queued once at most, and has been taken off the queue
      have hcount : w.loop.leaving k ≤ 1 := by
        cases hw.stage k t ht with
        | waiting hf hopen =>
          rw [outcome?_of_get hf, hopen] at ho
          cases ho
        | leaving _ _ hqueued => exact Nat.le_of_eq hqueued
        | retracted hout' _ _ hqueued =>
          rw [ho] at hout'
          cases hout'
          exact Nat.le_trans (Nat.le_of_eq (hqueued hcancelled)) (Nat.zero_le 1)
      have hone := hleaving k
      rw [if_pos rfl] at hone
      rw [leaving_retract (w := { w with loop := l }) hunstopped]
      change l.leaving k = 0
      omega
  · have hs := get_of_steps_retract hs hsame
    have htaken : Stage { w with loop := l } i s := by
      refine (hw.stage i s hs).of_futures rfl ?_ fun hi => hi
      have hone := hleaving i
      rw [if_neg hsame] at hone
      exact hone.symm
    exact htaken.retract hunstopped k

/-- A new step waits. -/
theorem Staged.install (hw : w.Staged) : w.installStep.2.Staged := by
  obtain ⟨message, heq⟩ := installStep_eq w
  rw [heq]
  refine ⟨fun i s hs => ?_, hw.unstopped.later _ fun i h => by cases h⟩
  obtain hs | ⟨rfl, rfl⟩ := getElem?_push_eq_some.1 hs
  · refine (hw.stage i s hs).mono (fun f hf => ⟨f, getElem?_push_of_some hf, rfl, rfl⟩) rfl fun hi => ?_
    have hi : some w.gate.steps.size = some i := hi
    rw [← Option.some.inj hi, Array.getElem?_size] at hs
    cases hs
  · refine .waiting (f := { callbacks := [.retract w.gate.steps.size] }) Array.getElem?_push_size rfl ?_ ?_
    · exact Option.some_ne_none _
    · simp [Callback.isRetract]

/-- Each part of a change of a wired world keeps every step at its stage. -/
theorem Part.staged (h : Part b n w v) (hwired : w.Wired) (hw : w.Staged) : v.Staged := by
  cases h with
  | still hstill => exact hw.still hstill
  | clock => exact hw.of_loop ⟨hw.unstopped.timers, hw.unstopped.ready⟩ fun _ => rfl
  | @addFuture _ _ _ _ f _ _ hstill => exact (hw.addFuture f).still hstill
  | soon _ hc => exact hw.soon (Callback.step?_of_isPlain hc.plain)
  | later _ delay hc =>
    refine hw.of_loop (hw.unstopped.later delay fun i h => ?_) fun _ => rfl
    have hplain := hc.plain
    rw [h] at hplain
    cases hplain
  | dropTimer _ timer => exact hw.of_loop (hw.unstopped.cancel timer) fun _ => Loop.leaving_cancel hw.unstopped timer
  | await _ future j => exact hw.await future j
  | settle _ o _ _ hother => exact hw.settle hwired hother o
  | cancel hk hopen => exact hw.cancel hwired hk hopen
  | release hk hopen hretract ho hstill => exact (hw.release hwired hk hopen hretract ho).still hstill
  | @next _ _ c l hnext hc =>
    refine hw.of_loop (hw.unstopped.next hnext) fun i => ?_
    rw [Loop.leaving_next hw.unstopped hnext, if_neg, Nat.add_zero]
    cases c with
    | none => exact Bool.false_ne_true
    | some c => exact fun hretract => hc i (congrArg some (Callback.isRetract_iff.1 hretract))
  | retract hnext => exact hw.called hwired hnext
  | @rouse _ _ id l hnext =>
    have htaken : Staged { w with loop := l } := hw.of_loop (hw.unstopped.next hnext) fun i => by
      rw [Loop.leaving_next hw.unstopped hnext, if_neg nofun, Nat.add_zero]
    obtain ⟨-, -, -, hother⟩ := hwired.queued _ ((Loop.Queued.of_next? hnext).2 _ rfl)
    exact rouse_keeps htaken (htaken.settle (wired_next hwired hnext) hother _)
  | install => exact hw.install

/-- The parts of a change, one after the other, keep every step at its stage. -/
theorem PartsOf.staged (h : PartsOf b n w v) (hw : w.Staged) : v.Staged :=
  h.keeps (fun _ _ hwired hpart hstaged => hpart.staged hwired hstaged) hw

/-- A fresh world has no step, so every step is at its stage. -/
theorem Fresh.staged (h : w.Fresh) : w.Staged := by
  refine ⟨fun i s hs => ?_, fun t ht => ?_, fun r hr => ?_⟩
  · simp [h.steps] at hs
  · simp [h.timers] at ht
  · simp [h.ready] at hr

/-- Whether a step is off the gate, and has no timer. -/
def Retracted (w : World) (i : StepId) : Prop :=
  (∀ s : PacedStep, w.gate.steps[i]? = some s → s.timer = none) ∧ w.gate.pending ≠ some i

/-- Whether a step has been cancelled, and the callback that is to take it off the gate has not run yet. -/
def Lingers (w : World) (i : StepId) : Prop :=
  (∃ s : PacedStep, w.gate.steps[i]? = some s ∧ w.outcome? s.future = some .cancelled) ∧
    w.loop.Queued (.retract i)

/-- A step that is done is retracted exactly if it does not linger, where every step is at its stage. -/
theorem Staged.retracted_iff (hw : w.Staged) (hs : w.gate.steps[i]? = some s) (hdone : w.isDone s.future = true) :
    w.Retracted i ↔ ¬ w.Lingers i := by
  obtain ⟨o, ho⟩ := isDone_iff.1 hdone
  cases hw.stage i s hs with
  | waiting hf hopen =>
    rw [outcome?_of_get hf, hopen] at ho
    cases ho
  | leaving hout htimer hqueued =>
    have hlingers : w.Lingers i := ⟨⟨s, hs, hout⟩, (Loop.queued_retract_iff hw.unstopped).2 (by omega)⟩
    exact ⟨fun h => absurd (h.1 s hs) htimer, fun h => absurd hlingers h⟩
  | retracted hout htimer hpending hqueued =>
    refine ⟨fun _ => ?_, fun _ => ⟨fun t ht => ?_, hpending⟩⟩
    · rintro ⟨⟨t, ht, hcancelled⟩, hleaves⟩
      rw [hs] at ht
      cases ht
      rw [hout] at hcancelled
      have hnone := hqueued (Option.some.inj hcancelled)
      have hsome := (Loop.queued_retract_iff hw.unstopped).1 hleaves
      omega
    · rw [hs] at ht
      cases ht
      exact htimer

/-- Let a step be done in a reachable scene, or amid its changes. It is retracted, off the gate and without a timer,
unless it lingers: its future has been cancelled, and the callback that retracts it is still queued. While it is pending
it lingers, and `step` is refused with a `stepPending` fault; that callback retracts it. -/
theorem retracted_iff_not_lingers {scene : Scene} (hscene : Scene.Reachable env P scene)
    (hw : Changes env scene.world w) (hs : w.gate.steps[i]? = some s) (hdone : w.isDone s.future = true) :
    (w.Retracted i ↔ ¬ w.Lingers i) ∧
    (w.gate.pending = some i → w.Lingers i ∧ ∀ call, ∃ fault faults, faults.kindOf fault = .stepPending ∧
      w.perform env (.step call) = (.error fault, { w with faults })) ∧
    ∀ l, w.loop.next? = some (some (.retract i), l) → (runCallback env { w with loop := l } (.retract i)).Retracted i := by
  obtain ⟨hintact, u, hfresh, hparts⟩ := hscene.parts
  have hstaged : w.Staged := (Changes.parts hw hintact.sound).staged (hparts.staged hfresh.staged)
  have hiff := hstaged.retracted_iff hs hdone
  refine ⟨hiff, fun hpending => ⟨?_, fun call => ?_⟩, fun l hnext => ⟨fun t ht => ?_, fun hpending => ?_⟩⟩
  · by_contra hnot
    exact (hiff.2 hnot).2 hpending
  · obtain ⟨fault, faults, hkind, hstep, -⟩ := perform_step_of_pending env hpending call
    exact ⟨fault, faults, hkind, hstep⟩
  · change (retract { w with loop := l } i).gate.steps[i]? = some t at ht
    rw [steps_retract, if_pos rfl] at ht
    obtain ⟨old, -, rfl⟩ := Option.map_eq_some_iff.1 ht
    rfl
  · change (retract { w with loop := l } i).gate.pending = some i at hpending
    rw [pending_retract] at hpending
    split at hpending
    · cases hpending
    · next hoff => exact hoff hpending

/-- A task that takes a step, and waits for it. -/
def stepAndWait : Work Value := do
  let step ← Work.attempt (Routine.perform (.step { func := .text "forward" }))
  Work.wait step.future

/-- A gate at which the task has taken its step. -/
def stepTaken : World :=
  ((World.addJob {} stepAndWait).2.tick? steppingEnv).getD (World.addJob {} stepAndWait).2

/-- The step is settled because the task that waits for it has been cancelled. -/
def cancelledWaiting : World := (stepTaken.perform steppingEnv (.cancelFuture 0)).2

/-- The state is reached by a listener-free bridge whose job was cancelled while it waited for its step. -/
theorem cancelledWaiting_reachable : Reachable steppingEnv (fun _ => True) cancelledWaiting := by
  have hspawn : Moves steppingEnv (fun _ => True) {} (World.addJob {} stepAndWait).2 :=
    .single (.spawn _ (Routine.all_true _))
  have htaken : Moves steppingEnv (fun _ => True) (World.addJob {} stepAndWait).2 stepTaken := moves_tick _
  exact ⟨{}, fresh_empty, (hspawn.trans htaken).tail (.perform _ trivial)⟩

/-- The step of a job that has just been cancelled is done and still pending, for its retraction is queued only. -/
theorem cancelledWaiting_lingers : cancelledWaiting.gate.pending = some 0 ∧
    (∃ s : PacedStep, cancelledWaiting.gate.steps[0]? = some s ∧ cancelledWaiting.isDone s.future = true) ∧
      ¬ cancelledWaiting.Retracted 0 ∧ cancelledWaiting.Lingers 0 := by
  have hpending : cancelledWaiting.gate.pending = some 0 := rfl
  have hstep : ∃ s : PacedStep, cancelledWaiting.gate.steps[0]? = some s ∧ cancelledWaiting.isDone s.future = true :=
    ⟨_, rfl, rfl⟩
  obtain ⟨s, hs, hdone⟩ := hstep
  have hscene := Scene.reachable_of_world cancelledWaiting_reachable
  obtain ⟨hiff, hlingers, -⟩ := retracted_iff_not_lingers hscene .refl hs hdone
  have hstays := (hlingers hpending).1
  exact ⟨hpending, ⟨s, hs, hdone⟩, fun h => hiff.1 h hstays, hstays⟩

/-- A step that is done need not be retracted yet: the one of `cancelledWaiting` is still on the gate. -/
theorem not_retracted_of_done : ¬ ∀ (env : Env) (w : World), Reachable env (fun _ => True) w →
    ∀ (i : StepId) (s : PacedStep), w.gate.steps[i]? = some s → w.isDone s.future = true → w.Retracted i := by
  intro hretracted
  have hpending : cancelledWaiting.gate.pending = some 0 := rfl
  exact (hretracted _ _ cancelledWaiting_reachable 0 _ rfl rfl).2 hpending

end World

end SteppedLogo
