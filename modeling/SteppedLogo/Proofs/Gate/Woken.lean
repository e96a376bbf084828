import SteppedLogo.Proofs.Gate.Stages

namespace SteppedLogo

/-- Whether a callback wakes a job, or takes a step off the gate. -/
def Callback.isSignal : Callback → Bool
  | .wake _ | .retract _ => true
  | .run _ | .elapse _ | .rouse _ | .deed _ => false

theorem Callback.isSignal_of_isPlain {c : Callback} (hc : c.isPlain = true) : c.isSignal = false := by
  cases c with
  | run | rouse | deed => rfl
  | wake | elapse | retract => cases hc

namespace Loop

variable {α : Type} {l l' : Loop α} {c : α}

/-- The callbacks that are ready, in the order in which they are called. -/
def queue (l : Loop α) : List α := l.ready.filterMap Ready.callback

theorem queued_of_mem_queue (hc : c ∈ l.queue) : l.Queued c := by
  obtain ⟨r, hr, hcallback⟩ := List.mem_filterMap.1 hc
  exact .inl ⟨r, hr, hcallback⟩

theorem queue_append (cs : List α) (hready : l'.ready = l.ready ++ cs.map fun c => { callback := some c }) :
    l'.queue = l.queue ++ cs := by
  simp only [queue, hready, List.filterMap_append, List.filterMap_map]
  refine congrArg _ ?_
  induction cs with
  | nil => rfl
  | cons c cs ih => simp

theorem queue_cancel (l : Loop α) (id : TimerId) : (l.cancel id).queue.Sublist l.queue := by
  simp only [queue, cancel]
  generalize l.ready = rs
  induction rs with
  | nil => exact .refl _
  | cons r rs ih =>
    rw [List.map_cons, List.filterMap_cons, List.filterMap_cons]
    unfold Ready.drop at ih ⊢
    by_cases hr : r.timer = some id
    · simp only [if_pos hr]
      cases r.callback with
      | none => exact ih
      | some c => exact ih.trans (List.sublist_cons_self c _)
    · simp only [if_neg hr]
      cases r.callback with
      | none => exact ih
      | some c => exact ih.cons_cons c

/-- What is gathered as an iteration begins stood behind timers, and goes behind all that is ready. -/
theorem queue_gathered (l : Loop α) :
    ∃ cs : List α, l.gathered.queue = l.queue ++ cs ∧ ∀ c ∈ cs, ∃ t ∈ l.timers, t.callback = c := by
  unfold gathered
  split
  · refine ⟨(l.timers.takeWhile (isDue l.clock)).map Timer.callback, ?_, fun c hc => ?_⟩
    · simp [queue, gather, List.filterMap_append, List.filterMap_map]
    · obtain ⟨t, ht, rfl⟩ := List.mem_map.1 hc
      exact ⟨t, (List.takeWhile_sublist _).subset ht, rfl⟩
  · exact ⟨[], by simp, fun _ h => by cases h⟩

theorem queue_next {c : Option α} (hnext : l.next? = some (c, l')) : l.gathered.queue = c.toList ++ l'.queue := by
  obtain ⟨r, rest, hready, rfl, rfl⟩ := next?_eq_some hnext
  simp only [queue, hready, List.filterMap_cons]
  cases r.callback <;> rfl

end Loop

namespace World

variable {waits : JobId → Option FutureId} {u v w : World} {id : FutureId} {c d : Callback} {o : Outcome} {n : Bool}

/-- Whether `d` may be called after `c`: no job is woken twice, nor before the step that it waits for has
been taken off the gate. -/
def Orderly (w : World) (waits : JobId → Option FutureId) (c d : Callback) : Prop :=
  ∀ j, c = .wake j → d ≠ .wake j ∧
    ∀ (i : StepId) (s : PacedStep), w.gate.steps[i]? = some s → waits j = some s.future → d ≠ .retract i

/-- The jobs, of which `waits` tells what they wait for, are woken in order. -/
structure Woken (waits : JobId → Option FutureId) (w : World) : Prop where
  ready : ∀ j, .wake j ∈ w.loop.queue → ∃ future, waits j = some future ∧ w.isDone future = true
  attached : ∀ (id : FutureId) (f : Future) (j : JobId), w.futures[id]? = some f → .wake j ∈ f.callbacks →
    f.outcome = none ∧ waits j = some id
  queue : w.loop.queue.Pairwise (w.Orderly waits)
  callbacks : ∀ (id : FutureId) (f : Future), w.futures[id]? = some f → f.callbacks.Pairwise (w.Orderly waits)
  timers : ∀ t ∈ w.loop.timers, t.callback.isSignal = false

theorem orderly_of_not_signal (hd : d.isSignal = false) : w.Orderly waits c d := by
  refine fun j _ => ⟨?_, fun i s _ _ => ?_⟩
  · rintro rfl
    cases hd
  · rintro rfl
    cases hd

theorem Orderly.mono (h : w.Orderly waits c d) (hsteps : KeepsSteps w v) : v.Orderly waits c d := by
  refine fun j hc => ⟨(h j hc).1, fun i t ht hwaits => ?_⟩
  obtain ⟨s, hs, hfuture⟩ := hsteps.symm.get ht
  exact (h j hc).2 i s hs (hwaits.trans (congrArg some hfuture.symm))

/-- The order is kept where no signal is added, neither to the queue nor to what waits for a future. -/
theorem Woken.mono (hw : w.Woken waits) (cs : List Callback) (hcs : ∀ c ∈ cs, c.isSignal = false)
    (hqueue : v.loop.queue.Sublist (w.loop.queue ++ cs))
    (hfutures : ∀ (id : FutureId) (f : Future), v.futures[id]? = some f → f.callbacks = [] ∨ w.futures[id]? = some f)
    (hdone : ∀ id, w.isDone id = true → v.isDone id = true) (hsteps : KeepsSteps w v)
    (htimers : ∀ t ∈ v.loop.timers, t ∈ w.loop.timers ∨ t.callback.isSignal = false) : v.Woken waits where
  ready j hj := by
    obtain hj | hj := List.mem_append.1 (hqueue.subset hj)
    · obtain ⟨future, hwaits, hsettled⟩ := hw.ready j hj
      exact ⟨future, hwaits, hdone future hsettled⟩
    · cases hcs _ hj
  attached id f j hf hj := by
    obtain hbare | hf := hfutures id f hf
    · rw [hbare] at hj
      cases hj
    · exact hw.attached id f j hf hj
  queue := by
    refine List.Pairwise.sublist hqueue (List.pairwise_append.2 ⟨hw.queue.imp fun h => h.mono hsteps, ?_, ?_⟩)
    · exact List.pairwise_of_forall_mem_list fun c _ d hd => orderly_of_not_signal (hcs d hd)
    · exact fun c _ d hd => orderly_of_not_signal (hcs d hd)
  callbacks id f hf := by
    obtain hbare | hf := hfutures id f hf
    · rw [hbare]
      exact .nil
    · exact (hw.callbacks id f hf).imp fun h => h.mono hsteps
  timers t ht := by
    obtain ht | hplain := htimers t ht
    · exact hw.timers t ht
    · exact hplain

/-- A change of the loop alone that adds no signal. -/
theorem Woken.of_loop (hw : w.Woken waits) {l : Loop Callback} (cs : List Callback)
    (hcs : ∀ c ∈ cs, c.isSignal = false) (hqueue : l.queue.Sublist (w.loop.queue ++ cs))
    (htimers : ∀ t ∈ l.timers, t ∈ w.loop.timers ∨ t.callback.isSignal = false) : Woken waits { w with loop := l } :=
  hw.mono cs hcs hqueue (fun _ _ hf => .inr hf) (fun _ h => h) (.of_eq rfl) htimers

theorem Woken.still (hw : w.Woken waits) (h : w.Still v) : v.Woken waits := by
  refine hw.mono [] (fun _ hc => by cases hc) ?_ (fun id f hf => .inr (h.futures ▸ hf)) (fun id hdone => ?_)
    (.of_eq h.steps) fun t ht => .inl (h.loop ▸ ht)
  · rw [h.loop, List.append_nil]
  · rwa [isDone, outcome?, h.futures]

/-- What waits for a future is called in the order in which it came to wait. -/
theorem Woken.settle (hw : w.Woken waits)
    (hattached : ∀ (f : Future) (c : Callback), w.futures[id]? = some f → c ∈ f.callbacks → w.Attached id c) (o : Outcome) :
    (w.settle id o).Woken waits := by
  obtain ⟨f, hf, hopen⟩ | ⟨-, vain, hsame⟩ := settle_cases w id o
  · have hsteps : KeepsSteps w (w.settle id o) := .of_eq (by rw [settle_gate])
    have hundone : w.isDone id = false := isDone_eq_false.2 ((outcome?_of_get hf).trans hopen)
    have hdone (other : FutureId) (h : w.isDone other = true) : (w.settle id o).isDone other = true :=
      (keepsFutures_settle w id o).isDone h
    have hqueue : (w.settle id o).loop.queue = w.loop.queue ++ f.callbacks := by
      refine Loop.queue_append _ ?_
      rw [settle_of_open hf hopen]
    -- a job that is to be woken already waits for another future, as this one is not settled yet
    have hother (j : JobId) (hj : .wake j ∈ w.loop.queue) : waits j ≠ some id := by
      intro hwaits
      obtain ⟨future, hfuture, hsettled⟩ := hw.ready j hj
      rw [hwaits] at hfuture
      cases hfuture
      rw [hundone] at hsettled
      cases hsettled
    refine ⟨fun j hj => ?_, fun k g j hg hj => ?_, ?_, fun k g hg => ?_, fun t ht => ?_⟩
    · rw [hqueue] at hj
      obtain hj | hj := List.mem_append.1 hj
      · obtain ⟨future, hwaits, hsettled⟩ := hw.ready j hj
        exact ⟨future, hwaits, hdone future hsettled⟩
      · exact ⟨id, (hw.attached id f j hf hj).2, isDone_iff.2 ⟨o, outcome?_settle_of_open hf hopen o⟩⟩
    · rw [settle_get] at hg
      split at hg
      · next h =>
        subst h
        rw [hf, Option.map_some, if_pos hopen] at hg
        cases hg
        cases hj
      · exact hw.attached k g j hg hj
    · rw [hqueue, List.pairwise_append]
      refine ⟨hw.queue.imp fun h => h.mono hsteps, (hw.callbacks id f hf).imp fun h => h.mono hsteps, ?_⟩
      intro c hc d hd j hj
      subst hj
      refine ⟨?_, fun i s hs hwaits => ?_⟩
      · rintro rfl
        exact hother j hc (hw.attached id f j hf hd).2
      · rintro rfl
        obtain ⟨t, ht, hfuture⟩ := hattached f _ hf hd
        rw [settle_gate, ht] at hs
        cases hs
        exact hother j hc (hwaits.trans (congrArg some hfuture))
    · rw [settle_get] at hg
      split at hg
      · next h =>
        subst h
        rw [hf, Option.map_some, if_pos hopen] at hg
        cases hg
        exact .nil
      · exact (hw.callbacks k g hg).imp fun h => h.mono hsteps
    · rw [settle_timers] at ht
      exact hw.timers t ht
  · rw [hsame]
    exact ⟨hw.ready, hw.attached, hw.queue, hw.callbacks, hw.timers⟩

theorem Woken.cancelTimer (hw : w.Woken waits) (timer : TimerId) : (w.cancelTimer timer).Woken waits := by
  refine hw.of_loop [] (fun _ hc => by cases hc) ?_ fun t ht => .inl (List.mem_filter.1 ht).1
  rw [List.append_nil]
  exact Loop.queue_cancel w.loop timer

theorem Woken.retract (hw : w.Woken waits) (i : StepId) : (w.retract i).Woken waits := by
  have hloop : (w.retract i).loop.queue.Sublist w.loop.queue ∧
      ∀ t ∈ (w.retract i).loop.timers, t ∈ w.loop.timers := by
    rw [loop_retract]
    split
    · exact ⟨Loop.queue_cancel _ _, fun t ht => (List.mem_filter.1 ht).1⟩
    · exact ⟨.refl _, fun t ht => ht⟩
  refine hw.mono [] (fun _ hc => by cases hc) (by rw [List.append_nil]; exact hloop.1)
    (fun id f hf => .inr (futures_retract w i ▸ hf)) (fun id h => ?_) (fun k => ?_) fun t ht => .inl (hloop.2 t ht)
  · rwa [isDone, outcome?, futures_retract]
  · rw [steps_retract]
    split
    · cases w.gate.steps[k]? <;> rfl
    · rfl

/-- As an iteration begins, what stood behind the timers that are due goes behind all that is ready. -/
theorem Woken.gathered (hw : w.Woken waits) : Woken waits { w with loop := w.loop.gathered } := by
  obtain ⟨cs, hqueue, htimers⟩ := w.loop.queue_gathered
  refine hw.of_loop cs (fun d hd => ?_) (by rw [hqueue]) fun t ht => .inl (Loop.mem_timers_gathered ht)
  obtain ⟨t, ht, rfl⟩ := htimers d hd
  exact hw.timers t ht

theorem Woken.next (hw : w.Woken waits) {c : Option Callback} {l : Loop Callback}
    (hnext : w.loop.next? = some (c, l)) : Woken waits { w with loop := l } := by
  have hqueue : w.loop.gathered.queue = c.toList ++ l.queue := Loop.queue_next hnext
  obtain ⟨r, rest, -, -, rfl⟩ := Loop.next?_eq_some hnext
  refine hw.gathered.of_loop [] (fun _ hc => by cases hc) ?_ fun t ht => .inl ht
  rw [List.append_nil, hqueue]
  exact List.sublist_append_right _ _

/-- The job that is the next to be woken waits for what is settled, and nothing that is queued, or is
still to be, wakes it again. -/
theorem Woken.first (hw : w.Woken waits) {j : JobId} {l : Loop Callback}
    (hnext : w.loop.next? = some (some (.wake j), l)) :
    (∃ future, waits j = some future ∧ w.isDone future = true) ∧ (∀ d ∈ l.queue, w.Orderly waits (.wake j) d) ∧
      ∀ (id : FutureId) (f : Future), w.futures[id]? = some f → .wake j ∉ f.callbacks := by
  have hqueue : w.loop.gathered.queue = .wake j :: l.queue := Loop.queue_next hnext
  obtain ⟨future, hwaits, hdone⟩ := hw.gathered.ready j (by rw [hqueue]; exact .head _)
  have hpairs : (Callback.wake j :: l.queue).Pairwise (w.Orderly waits) := hqueue ▸ hw.gathered.queue
  refine ⟨⟨future, hwaits, hdone⟩, (List.pairwise_cons.1 hpairs).1, fun id f hf hj => ?_⟩
  obtain ⟨hopen, hsame⟩ := hw.attached id f j hf hj
  rw [hwaits] at hsame
  cases hsame
  have hdone : w.isDone future = true := hdone
  rw [isDone, outcome?_of_get hf, hopen] at hdone
  cases hdone

/-- Nothing wakes a job that does not wait. -/
theorem Woken.idle (hw : w.Woken waits) {j : JobId} (hwaits : waits j = none) : .wake j ∉ w.loop.queue ∧
    ∀ (id : FutureId) (f : Future), w.futures[id]? = some f → .wake j ∉ f.callbacks := by
  refine ⟨fun hj => ?_, fun id f hf hj => ?_⟩
  · obtain ⟨future, hfuture, -⟩ := hw.ready j hj
    rw [hwaits] at hfuture
    cases hfuture
  · rw [(hw.attached id f j hf hj).2] at hwaits
    cases hwaits

/-- What a job waits for may change once nothing is to wake it any more. -/
theorem Woken.update (hw : w.Woken waits) {j : JobId} (hidle : .wake j ∉ w.loop.queue ∧
      ∀ (id : FutureId) (f : Future), w.futures[id]? = some f → .wake j ∉ f.callbacks)
    (future? : Option FutureId) : w.Woken (Function.update waits j future?) := by
  obtain ⟨hqueue, hcallbacks⟩ := hidle
  have hsame {k : JobId} (hk : j ≠ k) : Function.update waits j future? k = waits k :=
    Function.update_of_ne hk.symm _ _
  have horderly {c d : Callback} (hc : c ≠ .wake j) (h : w.Orderly waits c d) :
      w.Orderly (Function.update waits j future?) c d := by
    intro k hk
    have hne : j ≠ k := by
      rintro rfl
      exact hc hk
    refine ⟨(h k hk).1, fun i s hs hwaits => (h k hk).2 i s hs ?_⟩
    rwa [hsame hne] at hwaits
  refine ⟨fun k hk => ?_, fun id f k hf hk => ?_, hw.queue.imp_of_mem fun hc _ => horderly ?_,
    fun id f hf => (hw.callbacks id f hf).imp_of_mem fun hc _ => horderly ?_, hw.timers⟩
  · have hne : j ≠ k := by
      rintro rfl
      exact hqueue hk
    rw [hsame hne]
    exact hw.ready k hk
  · have hne : j ≠ k := by
      rintro rfl
      exact hcallbacks id f hf hk
    rw [hsame hne]
    exact hw.attached id f k hf hk
  · rintro rfl
    exact hqueue hc
  · rintro rfl
    exact hcallbacks id f hf hc

/-- A job comes to wait for a future that is not settled. -/
theorem Woken.await (hw : w.Woken waits) {j : JobId} (hwaits : waits j = none) (hopen : w.isDone id = false) :
    (w.whenDone id (.wake j)).Woken (Function.update waits j (some id)) := by
  obtain ⟨hqueue, hcallbacks⟩ := hw.idle hwaits
  have hupdated := hw.update ⟨hqueue, hcallbacks⟩ (some id)
  have hget (k : FutureId) (g : Future) (hg : (w.whenDone id (.wake j)).futures[k]? = some g) :
      w.futures[k]? = some g ∨ k = id ∧ ∃ f : Future, w.futures[id]? = some f ∧ g.outcome = f.outcome ∧
        g.callbacks = f.callbacks ++ [.wake j] := by
    simp only [whenDone, hopen, Bool.false_eq_true, if_false, Array.getElem?_modify] at hg
    split at hg
    · next h =>
      subst h
      obtain ⟨f, hf, rfl⟩ := Option.map_eq_some_iff.1 hg
      exact .inr ⟨rfl, f, hf, rfl, rfl⟩
    · exact .inl hg
  have hrest : (w.whenDone id (.wake j)).loop = w.loop ∧ (w.whenDone id (.wake j)).gate = w.gate := by
    simp [whenDone, hopen]
  have horderly {c d : Callback} (h : w.Orderly (Function.update waits j (some id)) c d) :
      (w.whenDone id (.wake j)).Orderly (Function.update waits j (some id)) c d :=
    h.mono (.of_eq (by rw [hrest.2]))
  refine ⟨fun k hk => ?_, fun k g i hg hi => ?_, ?_, fun k g hg => ?_, fun t ht => ?_⟩
  · rw [hrest.1] at hk
    obtain ⟨future, hfuture, hdone⟩ := hupdated.ready k hk
    exact ⟨future, hfuture, (light_whenDone w id j).futures.isDone hdone⟩
  · obtain hg | ⟨rfl, f, hf, hout, hadded⟩ := hget k g hg
    · exact hupdated.attached k g i hg hi
    · rw [hadded] at hi
      obtain hi | hi := List.mem_append.1 hi
      · rw [hout]
        exact hupdated.attached k f i hf hi
      · cases List.mem_singleton.1 hi
        exact ⟨hout.trans ((outcome?_of_get hf).symm.trans (isDone_eq_false.1 hopen)), Function.update_self ..⟩
  · rw [hrest.1]
    exact hupdated.queue.imp horderly
  · obtain hg | ⟨rfl, f, hf, -, hadded⟩ := hget k g hg
    · exact (hupdated.callbacks k g hg).imp horderly
    · rw [hadded, List.pairwise_append]
      refine ⟨(hupdated.callbacks k f hf).imp horderly, List.pairwise_singleton _ _, fun c hc d hd i hi => ?_⟩
      cases List.mem_singleton.1 hd
      subst hi
      refine ⟨?_, fun _ _ _ _ h => by cases h⟩
      rintro h
      cases h
      exact hcallbacks k f hf hc
  · rw [hrest.1] at ht
    exact hw.timers t ht

/-- A step that is set up waits for its own future first. -/
theorem Woken.install (hw : w.Woken waits) (hwired : w.Wired) : w.installStep.2.Woken waits := by
  obtain ⟨message, heq⟩ := installStep_eq w
  rw [heq]
  -- no callback is about the new step but the one that waits for it
  have horderly {c d : Callback} (hd : d ≠ .retract w.gate.steps.size) (h : w.Orderly waits c d)
      (v : World) (hv : v.gate.steps = w.gate.steps.push ⟨w.gate.seq, w.futures.size, some w.loop.nextTimer⟩) :
      v.Orderly waits c d := by
    refine fun j hj => ⟨(h j hj).1, fun i s hs hwaits => ?_⟩
    rw [hv] at hs
    obtain hs | ⟨rfl, rfl⟩ := getElem?_push_eq_some.1 hs
    · exact (h j hj).2 i s hs hwaits
    · exact hd
  have hmissing : ¬ ∃ s : PacedStep, w.gate.steps[w.gate.steps.size]? = some s := by
    rw [Array.getElem?_size]
    rintro ⟨s, hs⟩
    cases hs
  refine ⟨fun j hj => ?_, fun id f j hf hj => ?_, hw.queue.imp_of_mem fun _ hd h => ?_, fun id f hf => ?_, fun t ht => ?_⟩
  · obtain ⟨future, hwaits, hdone⟩ := hw.ready j hj
    obtain ⟨o, ho⟩ := isDone_iff.1 hdone
    obtain ⟨f, hf, hfo⟩ := get_of_outcome? ho
    exact ⟨future, hwaits, isDone_iff.2 ⟨o, (outcome?_of_get (getElem?_push_of_some hf)).trans hfo⟩⟩
  · obtain hf | ⟨rfl, rfl⟩ := getElem?_push_eq_some.1 hf
    · exact hw.attached id f j hf hj
    · cases List.mem_singleton.1 hj
  · refine horderly ?_ h _ rfl
    rintro rfl
    obtain ⟨s, hs, -⟩ := hwired.queued _ (Loop.queued_of_mem_queue hd)
    exact hmissing ⟨s, hs⟩
  · obtain hf | ⟨rfl, rfl⟩ := getElem?_push_eq_some.1 hf
    · refine (hw.callbacks id f hf).imp_of_mem fun _ hd h => horderly ?_ h _ rfl
      rintro rfl
      obtain ⟨s, hs, -⟩ := hwired.attached id f _ hf hd
      exact hmissing ⟨s, hs⟩
    · exact List.pairwise_singleton _ _
  · obtain rfl | ht := Loop.mem_insertByDue.1 ht
    · rfl
    · exact hw.timers t ht

/-- Each part in which no job comes to wait keeps the order. -/
theorem Part.woken (h : Part false n w v) (hwired : w.Wired) (hw : w.Woken waits) : v.Woken waits := by
  cases h with
  | still hstill => exact hw.still hstill
  | clock clock => exact hw.of_loop [] (fun _ hc => by cases hc) (by rw [List.append_nil]; exact .refl _) fun t ht => .inl ht
  | @addFuture _ _ _ _ f _ hbare hstill =>
    refine Woken.still ?_ hstill
    refine hw.mono [] (fun _ hc => by cases hc) (by rw [List.append_nil]; exact .refl _) (fun id g hg => ?_)
      (fun id h => ?_) (.of_eq rfl) fun t ht => .inl ht
    · obtain hg | ⟨-, rfl⟩ := getElem?_push_eq_some.1 hg
      · exact .inr hg
      · exact .inl hbare
    · obtain ⟨o, ho⟩ := isDone_iff.1 h
      obtain ⟨g, hg, hgo⟩ := get_of_outcome? ho
      exact isDone_iff.2 ⟨o, (outcome?_of_get (getElem?_push_of_some hg)).trans hgo⟩
  | @soon _ _ _ c hc =>
    refine hw.of_loop [c] (fun d hd => ?_) ?_ fun t ht => .inl ht
    · rw [List.mem_singleton.1 hd]
      exact Callback.isSignal_of_isPlain hc.plain
    · rw [Loop.queue_append [c] rfl]
  | @later _ _ _ delay c hc =>
    refine hw.of_loop [] (fun _ hc => by cases hc) (by rw [List.append_nil]; exact .refl _) fun t ht => ?_
    obtain rfl | ht := Loop.mem_insertByDue.1 ht
    · exact .inr (Callback.isSignal_of_isPlain hc.plain)
    · exact .inl ht
  | dropTimer _ timer => exact hw.cancelTimer timer
  | settle _ o _ _ _ => exact hw.settle (hwired.attached _) o
  | cancel => exact hw.settle (hwired.attached _) _
  | @release _ _ _ u _ i s o _ _ hretract _ hstill =>
    have hsteps : KeepsSteps w u := by
      intro k
      rw [hretract.steps]
      exact (light_retract w i).steps k
    refine (((hw.retract i).still hretract).settle (fun f c hf hc => ?_) o).still hstill
    rw [hretract.futures, futures_retract] at hf
    exact (hwired.attached _ f c hf hc).mono hsteps
  | next hnext => exact hw.next hnext
  | retract hnext => exact (hw.next hnext).retract _
  | rouse hnext => exact rouse_keeps (hw.next hnext) ((hw.next hnext).settle (hwired.attached _) _)
  | install => exact hw.install hwired

/-- A step that is still at the gate has been cancelled, if it is settled, and no job that waits for it is
the next to be woken. -/
theorem Woken.not_first (hw : w.Woken waits) (hstaged : w.Staged) {p : StepId} {s : PacedStep} {j : JobId}
    {l : Loop Callback} (hpending : w.gate.pending = some p) (hs : w.gate.steps[p]? = some s)
    (hwaits : waits j = some s.future) : w.loop.next? ≠ some (some (.wake j), l) := by
  intro hnext
  obtain ⟨⟨future, hfuture, hdone⟩, hbehind, -⟩ := hw.first hnext
  rw [hwaits] at hfuture
  cases hfuture
  have hleaving : w.loop.leaving p = 1 := by
    cases hstaged.stage p s hs with
    | waiting hf hopen =>
      rw [isDone, outcome?_of_get hf, hopen] at hdone
      cases hdone
    | leaving _ _ hqueued => exact hqueued
    | retracted _ _ hoff => exact absurd hpending hoff
  rw [Loop.leaving_next hstaged.unstopped hnext] at hleaving
  have hqueued : 0 < l.leaving p := by
    simp [Callback.isRetract] at hleaving
    omega
  obtain ⟨r, hr, hretract⟩ := List.countP_pos_iff.1 hqueued
  obtain ⟨c, hc, hretracts⟩ := (Option.any_eq_true _ _).1 hretract
  have hmem : .retract p ∈ l.queue := List.mem_filterMap.2 ⟨r, hr, by rw [hc, Callback.isRetract_iff.1 hretracts]⟩
  exact (hbehind _ hmem j rfl).2 p s hs hwaits rfl

theorem PartsOf.woken (h : PartsOf false true w v) (hw : w.Woken waits) : v.Woken waits :=
  h.keeps (I := Woken waits) (fun _ _ hwired hpart => hpart.woken hwired) hw

theorem Fresh.woken (h : w.Fresh) : w.Woken waits := by
  have hqueue : w.loop.queue = [] := by
    rw [Loop.queue, h.ready]
    rfl
  have hfutures (id : FutureId) : w.futures[id]? = none := by
    rw [h.futures]
    rfl
  refine ⟨fun j hj => ?_, fun id f j hf => ?_, ?_, fun id f hf => ?_, fun t ht => ?_⟩
  · rw [hqueue] at hj
    cases hj
  · rw [hfutures] at hf
    cases hf
  · rw [hqueue]
    exact .nil
  · rw [hfutures] at hf
    cases hf
  · rw [h.timers] at ht
    cases ht

end World

end SteppedLogo
