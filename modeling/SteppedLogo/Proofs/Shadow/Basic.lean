import SteppedLogo.Proofs.Program.Abreast
import SteppedLogo.Proofs.Schedule.Map
import SteppedLogo.Proofs.World.Grows

namespace SteppedLogo

/-- Two arrays of one length, related element by element. -/
def Matched {α β : Type} (R : α → β → Prop) (xs : Array α) (ys : Array β) : Prop := ∀ i : Nat, Option.Rel R xs[i]? ys[i]?

namespace Matched

variable {α β : Type} {R S : α → β → Prop} {xs : Array α} {ys : Array β}

theorem empty : Matched R #[] #[] := fun _ => .none

theorem mono (h : Matched R xs ys) (hle : ∀ x y, R x y → S x y) : Matched S xs ys := fun i => by
  have hi := h i
  generalize xs[i]? = x at hi
  generalize ys[i]? = y at hi
  cases hi with
  | some hxy => exact .some (hle _ _ hxy)
  | none => exact .none

/-- Matched arrays have elements at the same places. -/
theorem none_iff (h : Matched R xs ys) (i : Nat) : xs[i]? = none ↔ ys[i]? = none := by
  have hi := h i
  generalize xs[i]? = x at hi
  generalize ys[i]? = y at hi
  cases hi <;> simp

/-- Matched arrays have one length. -/
theorem size (h : Matched R xs ys) : xs.size = ys.size := by
  have hle := (h.none_iff ys.size).2 (Array.getElem?_eq_none (Nat.le_refl _))
  have hge := (h.none_iff xs.size).1 (Array.getElem?_eq_none (Nat.le_refl _))
  rw [Array.getElem?_eq_none_iff] at hle hge
  omega

/-- At each place there is no element in either of two matched arrays, or there are two that are related. -/
theorem cases (h : Matched R xs ys) (i : Nat) :
    xs[i]? = none ∧ ys[i]? = none ∨ ∃ x y, xs[i]? = some x ∧ ys[i]? = some y ∧ R x y := by
  have hi := h i
  generalize xs[i]? = x at hi
  generalize ys[i]? = y at hi
  cases hi with
  | none => exact .inl ⟨rfl, rfl⟩
  | some hxy => exact .inr ⟨_, _, rfl, rfl, hxy⟩

theorem push (h : Matched R xs ys) {x : α} {y : β} (hxy : R x y) : Matched R (xs.push x) (ys.push y) := fun i => by
  rw [Array.getElem?_push, Array.getElem?_push, h.size]
  split
  · exact .some hxy
  · exact h i

/-- Matched arrays may be changed at one place, alike in both. -/
theorem modify (h : Matched R xs ys) (i : Nat) {change : α → α} {change' : β → β}
    (hchange : ∀ x y, R x y → R (change x) (change' y)) : Matched R (xs.modify i change) (ys.modify i change') := fun k => by
  rw [Array.getElem?_modify, Array.getElem?_modify]
  split
  · obtain ⟨hx, hy⟩ | ⟨x, y, hx, hy, hxy⟩ := h.cases k
    · rw [hx, hy]
      exact .none
    · rw [hx, hy]
      exact .some (hchange x y hxy)
  · exact h k

end Matched

variable {σ : Skew} {T U : Pairing}

/-- A callback, with the number that a step has where `n` steps had been taken before. -/
def Callback.shift (n : Nat) : Callback → Callback
  | .elapse i => .elapse (i + n)
  | .retract i => .retract (i + n)
  | c => c

/-- Two outcomes that differ at most in the identity of a fault. -/
inductive Outcome.Told (T : Pairing) : Outcome → Outcome → Prop
  | value (x : Value) : Told T (.value x) (.value x)
  | fault {a b : FaultId} (hab : T a b) : Told T (.fault a) (.fault b)
  | cancelled : Told T .cancelled .cancelled

/-- Two futures that are settled alike, if they are, and have the same called then. -/
structure Future.Shadows (σ : Skew) (T : Pairing) (f g : Future) : Prop where
  outcome : Option.Rel (Outcome.Told T) f.outcome g.outcome
  callbacks : f.callbacks = g.callbacks.map (Callback.shift σ.steps)
  job : f.job = g.job

/-- Two jobs that are at the same point. -/
structure Job.Level (job mate : Job) : Prop where
  future : job.future = mate.future
  waiting : job.waiting = mate.waiting
  cancelRequested : job.cancelRequested = mate.cancelRequested
  begun : job.begun = mate.begun

/-- Two jobs that go on alike: the jobs of corresponding runs, or of none. -/
structure Job.Accords (σ : Skew) (T : Pairing) (job mate : Job) : Prop where
  run : job.run = mate.run.map (· + σ.runs)
  first : ∀ r, mate.run = some r → σ.first ≤ r
  resume : ∀ U received received', T ≤ U → U.Told received received' →
    (job.resume received).Abreast σ Pairing.Told U (mate.resume received')

/-- Two jobs that are at the same point, and go on alike unless they have ended. -/
structure Job.Shadows (σ : Skew) (T : Pairing) (ended : FutureId → Bool) (job mate : Job) : Prop where
  level : job.Level mate
  goes : ended mate.future = true ∨ job.Accords σ T mate

/-- Two runs that have come equally far. -/
structure Run.Shadows (T : Pairing) (run mate : Run) : Prop where
  status : run.status = mate.status
  source : run.source = mate.source
  steps : run.steps = mate.steps
  reason : run.reason = mate.reason
  error : Option.Rel T run.error mate.error

/-- Outcomes are told alike where more faults are paired. -/
theorem Outcome.Told.mono {o o' : Outcome} (h : o.Told T o') (hle : T ≤ U) : o.Told U o' := by
  cases h with
  | value x => exact .value x
  | fault hab => exact .fault (hle _ _ hab)
  | cancelled => exact .cancelled

theorem Future.Shadows.mono {f g : Future} (h : f.Shadows σ T g) (hle : T ≤ U) : f.Shadows σ U g :=
  ⟨rel_mono (fun _ _ ho => ho.mono hle) h.outcome, h.callbacks, h.job⟩

/-- Jobs go on alike where more faults are paired. -/
theorem Job.Accords.mono {job mate : Job} (h : job.Accords σ T mate) (hle : T ≤ U) : job.Accords σ U mate :=
  { h with resume := fun V received received' hle' => h.resume V received received' fun a b hab => hle' a b (hle a b hab) }

theorem Run.Shadows.mono {run mate : Run} (h : run.Shadows T mate) (hle : T ≤ U) : run.Shadows U mate :=
  { h with error := rel_mono hle h.error }

namespace World

/-- Two sessions that differ as `σ` says, where `T` tells which fault of the one stands for which fault of the other. -/
structure Shadows (σ : Skew) (T : Pairing) (w v : World) : Prop where
  fresh : w.fresh = v.fresh
  loop : w.loop = v.loop.map (Callback.shift σ.steps)
  futures : Matched (Future.Shadows σ T) w.futures v.futures
  jobs : Matched (Job.Shadows σ T v.isDone) w.jobs v.jobs
  faults : w.faults.Paired σ.number σ.recounts T v.faults
  renderer : w.trace.renderer = v.trace.renderer
  view : w.trace.view.root = v.trace.view.root ∧ σ.Prints false w.output v.output ∨
    (w.trace.renderer = {} ∧ w.trace.view.root = σ.left ∧ v.trace.view.root = none) ∧ σ.Prints true w.output v.output
  hostView : w.hostView = v.hostView
  interval : w.gate.interval = v.gate.interval
  pending : w.gate.pending = v.gate.pending.map (· + σ.steps)
  seq : w.gate.seq = v.gate.seq
  steps_size : w.gate.steps.size = v.gate.steps.size + σ.steps
  steps : ∀ i, w.gate.steps[i + σ.steps]? = v.gate.steps[i]?
  runs_size : w.session.runs.size = v.session.runs.size + σ.runs
  begun : σ.first < v.session.runs.size
  runs : ∀ (r : RunId) (run mate : Run), σ.first ≤ r → w.session.runs[r + σ.runs]? = some run →
    v.session.runs[r]? = some mate → run.Shadows T mate ∧ run.number + 1 = mate.number + σ.number
  nextNumber : w.session.nextNumber + 1 = v.session.nextNumber + σ.number
  traceOn : w.session.traceOn = v.session.traceOn
  turtle : w.turtle = v.turtle
  calls : w.calls = v.calls
  interrupt : w.interrupt = v.interrupt
  tracked : w.tracked = v.tracked
  lastStatus : w.lastStatus = v.lastStatus
  listeners : σ.recounts → w.gate.listeners = v.gate.listeners
  events : σ.recounts → w.events = v.events
  spent : σ.recounts → w.spent = v.spent

/-- Two results that are related with more faults paired, and the states in which they are given. -/
def AnsweredAlike (σ : Skew) (T : Pairing) {α : Type} (R : Pairing → α → α → Prop) (x y : α × World) : Prop :=
  ∃ U, T ≤ U ∧ R U x.1 y.1 ∧ x.2.Shadows σ U y.2

namespace Shadows

variable {w v : World}

theorem answers {α : Type} {R : Pairing → α → α → Prop} (h : w.Shadows σ T v) {a b : α} (hab : R T a b) :
    AnsweredAlike σ T R (a, w) (b, v) := ⟨T, fun _ _ h => h, hab, h⟩

/-- What is logged is not compared. -/
theorem addLog (h : w.Shadows σ T v) (level level' : Level) (logger logger' message message' : String)
    (fault fault' : Option String) :
    (w.addLog level logger message fault).Shadows σ T (v.addLog level' logger' message' fault') := { h with }

/-- Where both sessions recount what listeners do, each fault stands for itself. -/
theorem pairing_eq (h : w.Shadows σ T v) (hrecounts : σ.recounts) : T = Eq := by
  funext a b
  exact propext (h.faults.pairs hrecounts a b)

/-- The faults of both may change as long as those that were paired stay so. -/
theorem withFaults (h : w.Shadows σ T v) (hle : T ≤ U) {fs gs : Faults} (hfaults : fs.Paired σ.number σ.recounts U gs) :
    Shadows σ U { w with faults := fs } { v with faults := gs } :=
  { h with
    futures := h.futures.mono fun _ _ hf => hf.mono hle
    jobs := h.jobs.mono fun _ _ hj => ⟨hj.level, hj.goes.imp_right (·.mono hle)⟩
    faults := hfaults
    runs := fun r run mate hr hrun hmate =>
      ⟨(h.runs r run mate hr hrun hmate).1.mono hle, (h.runs r run mate hr hrun hmate).2⟩ }

/-- Raising faults that are paired pairs the new ones. -/
theorem raise (h : w.Shadows σ T v) {f g : Fault} (hfg : f.Paired σ.number T g) :
    AnsweredAlike σ T (fun U => U) (w.raise f) (v.raise g) := by
  obtain ⟨U, hle, hid, hfaults⟩ := h.faults.add hfg
  exact ⟨U, hle, hid, h.withFaults hle hfaults⟩

/-- The same complaint is raised in both sessions. -/
theorem complain {α : Type} (h : w.Shadows σ T v) (c : Complaint) :
    AnsweredAlike σ T (fun U : Pairing => U.Told) (w.complain c : Except FaultId α × World) (v.complain c) := by
  obtain ⟨U, hle, hid, hraised⟩ := h.raise (.ofComplaint c)
  exact ⟨U, hle, .error hid, hraised⟩

/-- The loops may change alike. -/
theorem withLoop (h : w.Shadows σ T v) {l m : Loop Callback} (hloop : l = m.map (Callback.shift σ.steps)) :
    Shadows σ T { w with loop := l } { v with loop := m } := { h with loop := hloop }

theorem soon (h : w.Shadows σ T v) (c : Callback) : (w.soon (c.shift σ.steps)).Shadows σ T (v.soon c) :=
  h.withLoop ((congrArg (Loop.soon · _) h.loop).trans (Loop.soon_map v.loop c))

/-- A timer is set in both sessions under the same number. -/
theorem later (h : w.Shadows σ T v) (delay : Float) (c : Callback) :
    (w.later delay (c.shift σ.steps)).1 = (v.later delay c).1 ∧
      (w.later delay (c.shift σ.steps)).2.Shadows σ T (v.later delay c).2 := by
  have hlater : w.loop.later delay (c.shift σ.steps) = _ :=
    (congrArg (Loop.later · delay (c.shift σ.steps)) h.loop).trans (Loop.later_map v.loop delay c)
  have hid : (w.loop.later delay (c.shift σ.steps)).1 = (v.loop.later delay c).1 := by rw [hlater]
  have hloop : (w.loop.later delay (c.shift σ.steps)).2 = (v.loop.later delay c).2.map (Callback.shift σ.steps) := by
    rw [hlater]
  exact ⟨hid, h.withLoop hloop⟩

theorem cancelTimer (h : w.Shadows σ T v) (id : TimerId) : (w.cancelTimer id).Shadows σ T (v.cancelTimer id) :=
  h.withLoop ((congrArg (Loop.cancel · id) h.loop).trans (Loop.cancel_map v.loop id))

theorem setClock (h : w.Shadows σ T v) (clock : Float) : (w.setClock clock).Shadows σ T (v.setClock clock) :=
  h.withLoop (congrArg (Loop.setClock · clock) h.loop)

/-- The outcomes of a future are the same up to the faults. -/
theorem outcome? (h : w.Shadows σ T v) (id : FutureId) : Option.Rel (Outcome.Told T) (w.outcome? id) (v.outcome? id) := by
  unfold World.outcome?
  obtain ⟨hf, hg⟩ | ⟨f, g, hf, hg, hfg⟩ := h.futures.cases id
  · rw [hf, hg]
    exact .none
  · rw [hf, hg]
    exact hfg.outcome

/-- A future is settled in both sessions or in neither. -/
theorem isDone (h : w.Shadows σ T v) (id : FutureId) : w.isDone id = v.isDone id := by
  have houtcome := h.outcome? id
  unfold World.isDone
  generalize w.outcome? id = o at houtcome
  generalize v.outcome? id = o' at houtcome
  cases houtcome <;> rfl

/-- The futures of both may change as long as they stay alike, and none that is settled is opened. -/
theorem withFutures (h : w.Shadows σ T v) {fs gs : Array Future} (hfutures : Matched (Future.Shadows σ T) fs gs)
    (hkeeps : KeepsFutures v { v with futures := gs }) :
    Shadows σ T { w with futures := fs } { v with futures := gs } :=
  { h with
    futures := hfutures
    jobs := h.jobs.mono fun _ _ hj => ⟨hj.level, hj.goes.imp_left hkeeps.isDone⟩ }

theorem pushFuture (h : w.Shadows σ T v) {f g : Future} (hfg : f.Shadows σ T g) :
    Shadows σ T { w with futures := w.futures.push f } { v with futures := v.futures.push g } :=
  h.withFutures (h.futures.push hfg) (.of_push rfl)

/-- An open future is made in both sessions under the same number. -/
theorem addFuture (h : w.Shadows σ T v) {f : Future} (hopen : f.outcome = none) (hbare : f.callbacks = []) :
    (w.addFuture f).1 = (v.addFuture f).1 ∧ (w.addFuture f).2.Shadows σ T (v.addFuture f).2 := by
  have hself : f.Shadows σ T f := ⟨by rw [hopen]; exact .none, by rw [hbare]; rfl, rfl⟩
  exact ⟨h.futures.size, h.pushFuture hself⟩

theorem foldl_soon (h : w.Shadows σ T v) (cs : List Callback) :
    ((cs.map (Callback.shift σ.steps)).foldl World.soon w).Shadows σ T (cs.foldl World.soon v) := by
  induction cs generalizing w v with
  | nil => exact h
  | cons c cs ih => exact ih (h.soon c)

/-- `settle` with outcomes that are told alike. -/
theorem settle (h : w.Shadows σ T v) (id : FutureId) {o o' : Outcome} (ho : o.Told T o') :
    (w.settle id o).Shadows σ T (v.settle id o') := by
  obtain ⟨hf, hg⟩ | ⟨f, g, hf, hg, hfg⟩ := h.futures.cases id
  · rwa [settle_of_missing hf, settle_of_missing hg]
  · cases hopen : g.outcome with
    | some q =>
      have hdone : v.isDone id = true := isDone_iff.2 ⟨q, by rw [outcome?_of_get hg, hopen]⟩
      rw [settle_of_done hdone, settle_of_done ((h.isDone id).trans hdone)]
      exact { h with }
    | none =>
      have hopen' : f.outcome = none := by
        have houtcome := hfg.outcome
        rw [hopen] at houtcome
        generalize f.outcome = p at houtcome
        cases houtcome
        rfl
      have hsettled : Shadows σ T
          { w with futures := w.futures.modify id fun f => { f with outcome := some o, callbacks := [] } }
          { v with futures := v.futures.modify id fun f => { f with outcome := some o', callbacks := [] } } := by
        refine h.withFutures (h.futures.modify id fun _ _ hfg => ⟨.some ho, rfl, hfg.job⟩) fun other f hother => ?_
        have hkeeps := keepsFutures_settle v id o' other f hother
        rwa [settle_of_open hg hopen o'] at hkeeps
      -- What was to be called at the end of the future is queued in the same order.
      have hqueued := hsettled.foldl_soon g.callbacks
      rw [← hfg.callbacks] at hqueued
      have hw : w.settle id o = f.callbacks.foldl World.soon
          { w with futures := w.futures.modify id fun f => { f with outcome := some o, callbacks := [] } } := by
        rw [World.settle, hf]
        exact if_neg (by simp [hopen'])
      have hv : v.settle id o' = g.callbacks.foldl World.soon
          { v with futures := v.futures.modify id fun f => { f with outcome := some o', callbacks := [] } } := by
        rw [World.settle, hg]
        exact if_neg (by simp [hopen])
      rwa [hw, hv]

/-- A callback may be attached to a future in both sessions. -/
theorem whenDone (h : w.Shadows σ T v) (id : FutureId) (c : Callback) :
    (w.whenDone id (c.shift σ.steps)).Shadows σ T (v.whenDone id c) := by
  unfold World.whenDone
  rw [h.isDone]
  split
  · exact h.soon c
  · refine h.withFutures (h.futures.modify id fun f g hfg => ⟨hfg.outcome, ?_, hfg.job⟩) fun other g hg => ?_
    · rw [hfg.callbacks, List.map_append]
      rfl
    · by_cases hother : id = other
      · exact ⟨{ g with callbacks := g.callbacks ++ [c] }, by simp [Array.getElem?_modify, hother, hg], rfl, fun _ ho => ho⟩
      · exact ⟨g, by simp [Array.getElem?_modify, hother, hg], rfl, fun _ ho => ho⟩

/-- A job may change in both as long as it stays at the same point. -/
theorem modifyJob (h : w.Shadows σ T v) (id : JobId) {change change' : Job → Job}
    (hfuture : ∀ mate : Job, (change' mate).future = mate.future)
    (hlevel : ∀ job mate : Job, job.Level mate → (change job).Level (change' mate))
    (hgoes : ∀ job mate : Job, job.Accords σ T mate → (change job).Accords σ T (change' mate)) :
    (w.modifyJob id change).Shadows σ T (v.modifyJob id change') :=
  { h with
    jobs := h.jobs.modify id fun job mate hj =>
      ⟨hlevel job mate hj.level, hj.goes.imp (fun hdone => (hfuture mate).symm ▸ hdone) (hgoes job mate)⟩ }

/-- A job is asked to go on with its cancellation, or the request is taken back. -/
theorem request (h : w.Shadows σ T v) (id : JobId) (b : Bool) :
    (w.modifyJob id ({ · with cancelRequested := b })).Shadows σ T (v.modifyJob id ({ · with cancelRequested := b })) :=
  h.modifyJob id (fun _ => rfl) (fun _ _ hj => ⟨hj.future, hj.waiting, rfl, hj.begun⟩)
    fun _ _ ⟨hrun, hfirst, hresume⟩ => ⟨hrun, hfirst, hresume⟩

theorem waiting (h : w.Shadows σ T v) (j : JobId) : (w.jobs[j]?).bind Job.waiting = (v.jobs[j]?).bind Job.waiting := by
  obtain ⟨hj, hm⟩ | ⟨job, mate, hj, hm, hshadows⟩ := h.jobs.cases j
  · rw [hj, hm]
  · simp only [hj, hm, Option.bind_some, hshadows.level.waiting]

theorem requested (h : w.Shadows σ T v) (j : JobId) :
    ((w.jobs[j]?).map Job.cancelRequested).getD false = ((v.jobs[j]?).map Job.cancelRequested).getD false := by
  obtain ⟨hj, hm⟩ | ⟨job, mate, hj, hm, hshadows⟩ := h.jobs.cases j
  · rw [hj, hm]
  · simp only [hj, hm, Option.map_some, hshadows.level.cancelRequested]

/-- Cancelling a future goes down the same chain of jobs in both sessions. -/
theorem cancelWithin (h : w.Shadows σ T v) (fuel : Nat) (id : FutureId) :
    (World.cancelWithin fuel id w).1 = (World.cancelWithin fuel id v).1 ∧
      (World.cancelWithin fuel id w).2.Shadows σ T (World.cancelWithin fuel id v).2 := by
  induction fuel generalizing id with
  | zero => exact ⟨rfl, h⟩
  | succ fuel ih =>
    have hdone := h.isDone id
    simp only [World.cancelWithin]
    obtain ⟨hf, hg⟩ | ⟨f, g, hf, hg, hfg⟩ := h.futures.cases id
    · rw [hf, hg]
      exact ⟨rfl, h⟩
    · simp only [World.isDone, outcome?_of_get hf, outcome?_of_get hg] at hdone
      simp only [hf, hg, hdone, hfg.job]
      split
      · exact ⟨rfl, h⟩
      · cases g.job with
        | none => exact ⟨rfl, h.settle id .cancelled⟩
        | some job =>
          simp only [h.waiting]
          cases (v.jobs[job]?).bind Job.waiting with
          | none => exact ⟨rfl, h.request job true⟩
          | some awaited =>
            obtain ⟨hok, hshadows⟩ := ih awaited
            simp only [hok]
            refine ⟨trivial, ?_⟩
            split
            · exact hshadows
            · exact hshadows.request job true

/-- Cancelling a future has the same answer in both sessions. -/
theorem cancelFuture (h : w.Shadows σ T v) (id : FutureId) :
    (w.cancelFuture id).1 = (v.cancelFuture id).1 ∧ (w.cancelFuture id).2.Shadows σ T (v.cancelFuture id).2 := by
  rw [World.cancelFuture, World.cancelFuture, h.jobs.size]
  exact h.cancelWithin _ id

/-- `addJob` with a steady program; the job may be that of a run that is compared. -/
theorem addJob (h : w.Shadows σ T v) {code : Work Value} (hcode : code.run.Steady σ) {run : Option RunId}
    (hfirst : ∀ r, run = some r → σ.first ≤ r) :
    (w.addJob code (run.map (· + σ.runs))).1 = (v.addJob code run).1 ∧
      (w.addJob code (run.map (· + σ.runs))).2.Shadows σ T (v.addJob code run).2 := by
  obtain ⟨hid, hadded⟩ := h.addFuture (f := { job := some v.jobs.size }) rfl rfl
  have hjob : Job.Shadows σ T (v.addFuture { job := some v.jobs.size }).2.isDone
      { future := w.futures.size, resume := fun _ => code.run, run := run.map (· + σ.runs) }
      { future := v.futures.size, resume := fun _ => code.run, run } :=
    ⟨⟨hid, rfl, rfl, rfl⟩, .inr ⟨rfl, hfirst, fun U _ _ _ _ => hcode U⟩⟩
  have hpushed : Shadows σ T
      { (w.addFuture { job := some v.jobs.size }).2 with
        jobs := w.jobs.push { future := w.futures.size, resume := fun _ => code.run, run := run.map (· + σ.runs) } }
      { (v.addFuture { job := some v.jobs.size }).2 with
        jobs := v.jobs.push { future := v.futures.size, resume := fun _ => code.run, run } } :=
    { hadded with jobs := hadded.jobs.push hjob }
  rw [World.addJob, World.addJob, h.jobs.size]
  exact ⟨hid, hpushed.soon (.run v.jobs.size)⟩

end Shadows

end World

end SteppedLogo
