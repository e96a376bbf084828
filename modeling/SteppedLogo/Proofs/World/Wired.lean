import SteppedLogo.Proofs.World.Futures
import SteppedLogo.World.Session

namespace SteppedLogo.World

/-- What may be queued: a nap ends with a future that belongs to no step and no job, and a step is
taken off the gate once it is settled. -/
def Queueable (w : World) : Callback → Prop
  | .rouse id => ∃ f, w.futures[id]? = some f ∧ f.job = none ∧
      ∀ (i : StepId) (s : PacedStep), w.gate.steps[i]? = some s → s.future ≠ id
  | .retract i => ∃ s, w.gate.steps[i]? = some s ∧ w.isDone s.future = true
  | .run _ | .wake _ | .elapse _ | .deed _ => True

/-- What may wait for a future to be settled: jobs, and the step that the future is of. -/
def Attached (w : World) (id : FutureId) : Callback → Prop
  | .wake _ => True
  | .retract i => ∃ s, w.gate.steps[i]? = some s ∧ s.future = id
  | .run _ | .elapse _ | .rouse _ | .deed _ => False

structure Wired (w : World) : Prop where
  job_future : ∀ (j : JobId) (job : Job), w.jobs[j]? = some job →
    ∃ f : Future, w.futures[job.future]? = some f ∧ f.job = some j
  step_future : ∀ (i : StepId) (s : PacedStep), w.gate.steps[i]? = some s →
    ∃ f : Future, w.futures[s.future]? = some f ∧ f.job = none
  step_unique : ∀ (i k : StepId) (s t : PacedStep), w.gate.steps[i]? = some s →
    w.gate.steps[k]? = some t → s.future = t.future → i = k
  pending_step : ∀ i, w.gate.pending = some i → ∃ s, w.gate.steps[i]? = some s
  queued : ∀ c, w.loop.Queued c → w.Queueable c
  attached : ∀ (id : FutureId) (f : Future) (c : Callback), w.futures[id]? = some f →
    c ∈ f.callbacks → w.Attached id c

variable {w v : World}

/-- Futures stay, each as the future of the same job or of none, and settled once it is. -/
def KeepsFutures (w v : World) : Prop :=
  ∀ (id : FutureId) (f : Future), w.futures[id]? = some f →
    ∃ g : Future, v.futures[id]? = some g ∧ g.job = f.job ∧ ∀ o, f.outcome = some o → g.outcome = some o

/-- No step is added or lost; of the steps only the timers change. -/
def KeepsSteps (w v : World) : Prop :=
  ∀ i : StepId, (v.gate.steps[i]?).map PacedStep.future = (w.gate.steps[i]?).map PacedStep.future

theorem KeepsFutures.refl (w : World) : KeepsFutures w w := fun _ f hf => ⟨f, hf, rfl, fun _ h => h⟩

theorem KeepsFutures.of_push {g : Future} (hv : v.futures = w.futures.push g) : KeepsFutures w v :=
  fun _ f hf => ⟨f, hv ▸ getElem?_push_of_some hf, rfl, fun _ h => h⟩

/-- To add an open future settles none. -/
theorem outcome?_of_push {g : Future} (hv : v.futures = w.futures.push g) (hopen : g.outcome = none) (id : FutureId) :
    v.outcome? id = w.outcome? id := by
  rw [outcome?, outcome?, hv, Array.getElem?_push]
  split
  · next hnew => rw [hnew, Array.getElem?_size, Option.bind_some, hopen, Option.bind_none]
  · rfl

theorem KeepsFutures.trans {u : World} (huv : KeepsFutures u v) (hvw : KeepsFutures v w) :
    KeepsFutures u w := by
  intro id f hf
  obtain ⟨g, hg, hjob, hout⟩ := huv id f hf
  obtain ⟨h, hh, hjob', hout'⟩ := hvw id g hg
  exact ⟨h, hh, hjob'.trans hjob, fun o ho => hout' o (hout o ho)⟩

theorem KeepsFutures.outcome? (hkeeps : KeepsFutures w v) {id : FutureId} {o : Outcome}
    (ho : w.outcome? id = some o) : v.outcome? id = some o := by
  obtain ⟨f, hf, hfo⟩ := get_of_outcome? ho
  obtain ⟨g, hg, -, hout⟩ := hkeeps id f hf
  rw [outcome?_of_get hg, hout o hfo]

theorem KeepsFutures.isDone (hkeeps : KeepsFutures w v) {id : FutureId} (hdone : w.isDone id = true) :
    v.isDone id = true := by
  obtain ⟨o, ho⟩ := isDone_iff.1 hdone
  exact isDone_iff.2 ⟨o, hkeeps.outcome? ho⟩

/-- What is open later was open before. -/
theorem KeepsFutures.open_before (hkeeps : KeepsFutures w v) {id : FutureId} (hopen : v.isDone id = false) :
    w.isDone id = false := by
  by_contra hdone
  have hvdone : v.isDone id = true := hkeeps.isDone (by simpa using hdone)
  rw [hopen] at hvdone
  cases hvdone

theorem KeepsSteps.get (hsteps : KeepsSteps w v) {i : StepId} {s : PacedStep}
    (hs : w.gate.steps[i]? = some s) : ∃ t, v.gate.steps[i]? = some t ∧ t.future = s.future := by
  have h := hsteps i
  rw [hs, Option.map_some, Option.map_eq_some_iff] at h
  exact h

theorem KeepsSteps.symm (hsteps : KeepsSteps w v) : KeepsSteps v w := fun i => (hsteps i).symm

theorem KeepsSteps.of_eq (hsteps : v.gate.steps = w.gate.steps) : KeepsSteps w v := fun _ => by rw [hsteps]

/-- What may be queued may still be later, as long as no step is added. -/
theorem Queueable.mono (hfutures : KeepsFutures w v) (hsteps : KeepsSteps w v) {c : Callback}
    (hc : w.Queueable c) : v.Queueable c := by
  cases c with
  | run | wake | elapse | deed => trivial
  | rouse id =>
    obtain ⟨f, hf, hjob, hother⟩ := hc
    obtain ⟨g, hg, hgjob, -⟩ := hfutures id f hf
    refine ⟨g, hg, hgjob.trans hjob, fun i t ht => ?_⟩
    obtain ⟨s, hs, hst⟩ := hsteps.symm.get ht
    rw [← hst]
    exact hother i s hs
  | retract i =>
    obtain ⟨s, hs, hdone⟩ := hc
    obtain ⟨t, ht, hst⟩ := hsteps.get hs
    exact ⟨t, ht, by rw [hst]; exact hfutures.isDone hdone⟩

theorem Attached.mono (hsteps : KeepsSteps w v) {id : FutureId} {c : Callback}
    (hc : w.Attached id c) : v.Attached id c := by
  cases c with
  | wake => trivial
  | run | elapse | rouse | deed => cases hc
  | retract i =>
    obtain ⟨s, hs, hid⟩ := hc
    obtain ⟨t, ht, hst⟩ := hsteps.get hs
    exact ⟨t, ht, hst.trans hid⟩

/-- The wiring holds after a change that adds no step, wires each new job to its future, and
attaches and queues nothing but what may be. -/
theorem Wired.mono (hw : w.Wired) (hfutures : KeepsFutures w v) (hsteps : KeepsSteps w v)
    (hjobs : ∀ (j : JobId) (job : Job), v.jobs[j]? = some job →
      (∃ old : Job, w.jobs[j]? = some old ∧ old.future = job.future) ∨
        ∃ f : Future, v.futures[job.future]? = some f ∧ f.job = some j)
    (hpending : ∀ i, v.gate.pending = some i → w.gate.pending = some i)
    (hqueued : ∀ c, v.loop.Queued c → w.loop.Queued c ∨ v.Queueable c)
    (hattached : ∀ (id : FutureId) (f : Future) (c : Callback), v.futures[id]? = some f →
      c ∈ f.callbacks →
      (∃ old : Future, w.futures[id]? = some old ∧ c ∈ old.callbacks) ∨ v.Attached id c) : v.Wired where
  job_future j job hjob := by
    obtain ⟨old, hold, hsame⟩ | hnew := hjobs j job hjob
    · obtain ⟨f, hf, hfj⟩ := hw.job_future j old hold
      obtain ⟨g, hg, hgj, -⟩ := hfutures _ f hf
      exact ⟨g, hsame ▸ hg, hgj.trans hfj⟩
    · exact hnew
  step_future i t ht := by
    obtain ⟨s, hs, hst⟩ := hsteps.symm.get ht
    obtain ⟨f, hf, hplain⟩ := hw.step_future i s hs
    obtain ⟨g, hg, hgj, -⟩ := hfutures _ f hf
    exact ⟨g, hst ▸ hg, hgj.trans hplain⟩
  step_unique i k t t' ht ht' hsame := by
    obtain ⟨s, hs, hst⟩ := hsteps.symm.get ht
    obtain ⟨s', hs', hst'⟩ := hsteps.symm.get ht'
    exact hw.step_unique i k s s' hs hs' (by rw [hst, hst', hsame])
  pending_step i hi := by
    obtain ⟨s, hs⟩ := hw.pending_step i (hpending i hi)
    obtain ⟨t, ht, -⟩ := hsteps.get hs
    exact ⟨t, ht⟩
  queued c hc := by
    obtain hc | hc := hqueued c hc
    · exact (hw.queued c hc).mono hfutures hsteps
    · exact hc
  attached id f c hf hc := by
    obtain ⟨old, hold, hc⟩ | hc := hattached id f c hf hc
    · exact (hw.attached id old c hold hc).mono hsteps
    · exact hc

end SteppedLogo.World
