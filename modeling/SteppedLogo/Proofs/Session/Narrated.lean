import SteppedLogo.Proofs.Program.Planned
import SteppedLogo.Proofs.Session.Announced
import SteppedLogo.Proofs.Session.Verdict
import SteppedLogo.Proofs.Trace.Highlighted

namespace SteppedLogo

open LogoList (ofWords)

theorem callName_procedure (h : Handler) : callName h.procedure = h.name := by
  cases h with
  | primitive p => cases p <;> rfl
  | _ => rfl

/-- What is left behind the words that a call takes. -/
def PlannedCall.rest (c : PlannedCall) (fresh : Identity) (behind : List String) : List Cell :=
  (ofWords (fresh + (c.place + 1 + c.handler.arity)) (behind.drop c.handler.arity)).cells

namespace Words

/-- The calls that the words of a program lead to. -/
def plan (words : Words) (source : String) : List PlannedCall := planned words 0 0 (Text.words source)

/-- The call number `n` that a program comes to, with the words behind its own. -/
structure ComesTo (words : Words) (source : String) (n : Nat) (c : PlannedCall) (behind : List String) : Prop where
  place : (Text.words source).drop c.place = c.word :: behind
  plan : (words.plan source).drop n =
    c :: planned words (c.place + 1 + c.handler.arity) 0 (behind.drop c.handler.arity)
  primitive : ∃ p, c.handler = .primitive p

variable {words : Words} {source : String} {n : Nat} {c : PlannedCall} {behind : List String}

theorem ComesTo.get (h : ComesTo words source n c behind) : (words.plan source)[n]? = some c := by
  rw [← List.head?_drop, h.plan]
  rfl

/-- The calls up to the one that is come to are those before it and itself. -/
theorem ComesTo.take (h : ComesTo words source n c behind) :
    ((words.plan source).take (n + 1)).map PlannedCall.entry =
      ((words.plan source).take n).map PlannedCall.entry ++ [c.entry] := by
  rw [List.take_add_one, h.get, List.map_append]
  rfl

end Words

open Words

namespace World

variable {env : Env} {words : Words} {source : String} {start u v w : World} {r : RunId} {id : JobId} {job : Job}
variable {fresh : Identity} {first n m : Nat} {rest : Routine (Except FaultId Value)} {result : Except FaultId Value}

/-- The last step that has been set up at the gate behind the first ones. -/
def lastStep? (w : World) (first : Nat) : Option PacedStep :=
  if first < w.gate.steps.size then w.gate.steps.back? else none

/-- The last call boundary, if there is one, has been passed. -/
def LastPassed (w : World) (first : Nat) : Prop :=
  ∀ q, w.lastStep? first = some q → ∃ x, w.outcome? q.future = some (.value x)

/-- The last call boundary has been rejected. -/
def LastRejected (w : World) (first : Nat) : Prop :=
  ∃ q e f, w.lastStep? first = some q ∧ w.outcome? q.future = some (.fault e) ∧ w.faults.get? e = some f ∧
    f.kind = .cancellation

/-- A run has ended with the cancellation of its job, so that it has abandoned the call boundary at which it waited. -/
def Abandoned (w : World) (r : RunId) : Prop :=
  ∃ e f, (w.runOf r).error = some e ∧ w.faults.get? e = some f ∧ f.kind = .taskCancelled

/-- A step that was passed was not rejected. -/
theorem LastPassed.not_rejected (h : w.LastPassed first) : ¬ w.LastRejected first := by
  rintro ⟨q, e, f, hq, he, -⟩
  obtain ⟨x, hx⟩ := h q hq
  rw [hx] at he
  cases he

/-- The last step stays the last one, with its future, where the steps are kept. -/
theorem KeepsSteps.lastStep? (h : KeepsSteps w v) {q : PacedStep} (hq : w.lastStep? first = some q) :
    ∃ q', v.lastStep? first = some q' ∧ q'.future = q.future := by
  unfold World.lastStep? at hq ⊢
  split at hq
  · next hlt =>
    rw [if_pos (h.size ▸ hlt)]
    rw [Array.back?] at hq ⊢
    rw [h.size]
    exact h.get hq
  · cases hq

/-- A last step that was passed stays so where steps and futures are kept. -/
theorem LastPassed.kept (h : w.LastPassed first) (hsteps : KeepsSteps w v) (hfutures : KeepsFutures w v) :
    v.LastPassed first := by
  intro q hq
  obtain ⟨q', hq', hfuture⟩ := hsteps.symm.lastStep? hq
  obtain ⟨x, hx⟩ := h q' hq'
  exact ⟨x, hfutures.outcome? (hfuture ▸ hx)⟩

/-- A last step that was rejected stays so where steps, futures and faults are kept. -/
theorem LastRejected.kept (h : w.LastRejected first) (hsteps : KeepsSteps w v) (hfutures : KeepsFutures w v)
    (hfaults : w.faults.Keeps v.faults) : v.LastRejected first := by
  obtain ⟨q, e, f, hq, he, hf, hkind⟩ := h
  obtain ⟨q', hq', hfuture⟩ := hsteps.lastStep? hq
  obtain ⟨g, hg, hagrees⟩ := hfaults e f hf
  exact ⟨q', e, g, hq', hfutures.outcome? (hfuture ▸ he), hg, hagrees.kind.trans hkind⟩

/-- Of the calls of a program `n` have been announced and counted, and `m` recorded. -/
structure Books (words : Words) (source : String) (start : World) (r : RunId) (n m : Nat) (w : World) : Prop where
  calls : w.calls.toList = start.calls.toList ++ ((words.plan source).take m).map PlannedCall.entry
  seq : w.gate.seq = n
  counted : (w.runOf r).steps = n
  size : w.gate.steps.size = start.gate.steps.size + n
  stops : w.StopsOnly start.gate.steps.size
  made : m ≤ n

/-- What is booked of a run is borne on by a change that bears it. -/
theorem Books.bears (h : Books words source start r n m w) (hbears : w.Bears v) : Books words source start r n m v where
  calls := (congrArg Array.toList hbears.calls).trans h.calls
  seq := hbears.seq.trans h.seq
  counted := (hbears.runOf_steps r).trans h.counted
  size := hbears.steps.size.trans h.size
  stops := hbears.stopsOnly h.stops
  made := h.made

/-- The event of a step, and the state in which the listeners begin to be told of it, are those of the call number `k`. -/
structure Truthful (words : Words) (source : String) (start : World) (fresh : Identity) (k : Nat) (event : StepEvent)
    (v : World) : Prop where
  call : ∃ c behind, ComesTo words source k c behind ∧
    event = ⟨k + 1, c.handler.name, c.args, (Value.list (ofWords fresh (Text.words source))).cellOf c.place⟩ ∧
    v.trace.PointsAt fresh (Text.words source) c.place
  calls : v.calls.toList = start.calls.toList ++ ((words.plan source).take k).map PlannedCall.entry
  sound : v.Sound
  active : v.session.isActive = true

/-- While the listeners are told of a call, its word is highlighted, and the calls in front of it have been made. -/
theorem Truthful.heard {k : Nat} {event : StepEvent} (h : Truthful words source start fresh k event v)
    (hlisteners : ∀ name event, (env.react name event).run.All fun o => o.Attends ∧ o.LeavesTrace) :
    ∃ c, (words.plan source)[k]? = some c ∧ (Text.words source)[c.place]? = some c.word ∧
      event = ⟨k + 1, c.handler.name, c.args, (Value.list (ofWords fresh (Text.words source))).cellOf c.place⟩ ∧
      ∀ n, (hearing env event v n).trace.Highlights fresh (Text.words source) c.place ∧
        (hearing env event v n).calls.toList =
          start.calls.toList ++ ((words.plan source).take k).map PlannedCall.entry := by
  obtain ⟨c, behind, hcall, hevent, hpoints⟩ := h.call
  refine ⟨c, hcall.get, by rw [← List.head?_drop, hcall.place]; rfl, hevent, fun n => ?_⟩
  have hheard := heard_hearing hlisteners event h.sound h.active n
  exact ⟨hheard.trace ▸ hpoints.highlights hcall.place, (congrArg Array.toList hheard.bears.calls).trans h.calls⟩

/-- Nothing is shown yet, and the body of the program has been made; or that body is shown. -/
def Draws (w : World) (fresh : Identity) (texts : List String) : Prop :=
  (w.trace.renderer = {} ∧ fresh + texts.length ≤ w.fresh) ∨ ∃ place, w.trace.PointsAt fresh texts place

/-- What is left of a program of words of which `n` calls have been announced and `m` recorded. -/
inductive Underway (words : Words) (source : String) (start : World) (fresh : Identity) (w : World) :
    (n m : Nat) → Routine (Except FaultId Value) → Prop
  | queued (hblank : w.trace.renderer = {}) :
    Underway words source start fresh w 0 0 (.await none fun _ => (execute words source).run)
  | opens (hblank : w.trace.renderer = {}) : Underway words source start fresh w 0 0 (execute words source).run
  | announces {n : Nat} {c : PlannedCall} {behind : List String} (hcall : ComesTo words source n c behind)
    (hpassed : w.LastPassed start.gate.steps.size) (hdraws : w.Draws fresh (Text.words source)) :
    Underway words source start fresh w n n
      (announcing words (ofWords fresh (Text.words source)) (c.opened fresh behind) (c.rest fresh behind))
  | waits {n : Nat} {c : PlannedCall} {behind : List String} {q : PacedStep} (hcall : ComesTo words source n c behind)
    (hlast : w.lastStep? start.gate.steps.size = some q) (hpoints : w.trace.PointsAt fresh (Text.words source) c.place) :
    Underway words source start fresh w (n + 1) n
      (.await (some q.future)
        (passed words (ofWords fresh (Text.words source)) (c.opened fresh behind) (c.rest fresh behind)))
  | records {n : Nat} {c : PlannedCall} {behind : List String} (hcall : ComesTo words source n c behind)
    (hpassed : w.LastPassed start.gate.steps.size) (hpoints : w.trace.PointsAt fresh (Text.words source) c.place) :
    Underway words source start fresh w (n + 1) n
      (recording words true (ofWords fresh (Text.words source)) (c.opened fresh behind) (c.rest fresh behind))
  | invokes {n : Nat} {c : PlannedCall} {behind : List String} (hcall : ComesTo words source n c behind)
    (hpassed : w.LastPassed start.gate.steps.size) (hpoints : w.trace.PointsAt fresh (Text.words source) c.place) :
    Underway words source start fresh w (n + 1) (n + 1)
      (invoking words true (ofWords fresh (Text.words source)) (c.opened fresh behind) (c.rest fresh behind))
  | raises {n : Nat} {complaint : Complaint} (hordinary : complaint.Ordinary)
    (hpassed : w.LastPassed start.gate.steps.size) :
    Underway words source start fresh w n n (.op (.raise (.plain complaint)) fun fault => .done (.error fault))
  | cut {n : Nat} {e : FaultId} {f : Fault} (hget : w.faults.get? e = some f)
    (hwhy : w.LastRejected start.gate.steps.size ∨ f.kind = .taskCancelled) :
    Underway words source start fresh w (n + 1) n (.done (.error e))
  | ends {n : Nat} {result : Except FaultId Value} (hpassed : w.LastPassed start.gate.steps.size)
    (hordinary : ∀ e, result = .error e → ∃ f, w.faults.get? e = some f ∧ f.kind.isError = true) :
    Underway words source start fresh w n n (.done result)

/-- What is left of the program at its words from some place on. -/
theorem underway_remaining (hwords : words.IsPlain) {place : Nat} {texts : List String}
    (hplace : (Text.words source).drop place = texts) (hplan : (words.plan source).drop n = planned words place 0 texts)
    (hpassed : w.LastPassed start.gate.steps.size) (hdraws : w.Draws fresh (Text.words source)) :
    Underway words source start fresh w n n
      (remaining words true (ofWords fresh (Text.words source)) none (ofWords (fresh + place) texts).cells) := by
  obtain ⟨-, ⟨-, hdone⟩ | ⟨complaint, hordinary, -, hraise⟩⟩ | ⟨c, behind, htexts, rfl, hlookup, hplanned, hnext⟩ :=
    remaining_planned words (ofWords fresh (Text.words source)) fresh place texts
  · rw [hdone]
    exact .ends hpassed nofun
  · rw [hraise]
    exact .raises hordinary hpassed
  · rw [hnext]
    exact .announces ⟨hplace.trans htexts, hplan.trans hplanned, hwords _ _ hlookup⟩ hpassed hdraws

/-- A program whose last step was passed and whose marker is at its call is under way, with the rest of its words before it.
-/
theorem Underway.remaining (hwords : words.IsPlain) {c : PlannedCall} {behind : List String}
    (hcall : ComesTo words source n c behind)
    (hpassed : w.LastPassed start.gate.steps.size) (hpoints : w.trace.PointsAt fresh (Text.words source) c.place) :
    Underway words source start fresh w (n + 1) (n + 1)
      (remaining words true (ofWords fresh (Text.words source)) none (c.rest fresh behind)) := by
  refine underway_remaining hwords ?_ ?_ hpassed (.inr ⟨_, hpoints⟩)
  · rw [Nat.add_assoc, ← List.drop_drop, hcall.place, Nat.add_comm 1, List.drop_succ_cons]
  · rw [← List.drop_drop, hcall.plan]
    rfl

/-- The events that an operation announces, each with the state in which the listeners begin to be told of it. -/
def announcements (w : World) : Op → List (StepEvent × World)
  | .hook call => (w.announced? call).toList
  | _ => []

/-- A call that is announced gives the one announcement of its boundary. -/
theorem announcements_of_some {call : Call} {e : StepEvent × World} (h : w.announced? call = some e) :
    w.announcements (.hook call) = [e] := by
  rw [announcements, h]
  rfl

/-- A call that is not announced gives no announcement. -/
theorem announcements_of_none {call : Call} (h : w.announced? call = none) : w.announcements (.hook call) = [] := by
  rw [announcements, h]
  rfl

/-- No operation announces more than one call. -/
theorem announcements_length (w : World) (o : Op) : (w.announcements o).length ≤ 1 := by
  cases o with
  | hook call =>
    cases h : w.announced? call with
    | none => rw [announcements_of_none h]; exact Nat.zero_le _
    | some e => rw [announcements_of_some h]; exact Nat.le_refl _
  | _ => exact Nat.zero_le _

/-- An operation that only attends to the run announces nothing. -/
theorem announcements_of_attends {o : Op} (ho : o.Attends) (w : World) : w.announcements o = [] := by
  cases o with
  | hook => exact ho.1.1.elim
  | _ => rfl

/-- An operation that only attends to an active run of a sound world bears on what is booked of it. -/
theorem bears_perform (hw : w.Sound) (hactive : w.session.isActive = true) {o : Op} (ho : o.Attends) :
    w.Bears (w.perform env o).2 :=
  (tends_perform ho hw.toWired).bears ((grows_perform env o w hw).2.current hactive)

/-- A last step that was passed stays so over an operation that only attends to the run. -/
theorem LastPassed.perform (h : w.LastPassed first) (hw : w.Sound) (hactive : w.session.isActive = true) {o : Op}
    (ho : o.Attends) :
    (w.perform env o).2.LastPassed first :=
  h.kept (bears_perform hw hactive ho).steps (grows_perform env o w hw).2.futures

/-- The listeners begin to be told of a call once the marker is at its word. -/
theorem Announces.pointsAt {call : Call} (h : w.Announces call u) (htrace : w.session.traceOn = true) {c : PlannedCall}
    {behind : List String} (hcall : ComesTo words source n c behind) (hdraws : w.Draws fresh (Text.words source))
    (hbody : call.body = .list (ofWords fresh (Text.words source)))
    (hcell : call.cell = (Value.list (ofWords fresh (Text.words source))).cellOf c.place) :
    u.trace.PointsAt fresh (Text.words source) c.place := by
  rw [h.trace htrace _ _ hbody (hcell.trans (LogoList.cellOf_ofWords hcall.place)), hbody, hcell]
  obtain ⟨hblank, hapart⟩ | ⟨before, hbefore⟩ := hdraws
  · exact Trace.pointsAt_first hblank hapart hcall.place
  · exact hbefore.update w.fresh hcall.place

/-- A step that has been set up is the last one. -/
theorem Installs.lastStep? {step : Step} (h : w.Installs step v) (hfirst : first ≤ w.gate.steps.size) :
    ∃ q, v.lastStep? first = some q ∧ q.future = step.future := by
  obtain ⟨q, hq, hfuture⟩ := h.last
  refine ⟨q, ?_, hfuture⟩
  rw [World.lastStep?, h.size, if_pos (Nat.lt_succ_of_le hfirst), Array.back?, h.size]
  exact hq

/-- A call has been announced, its listeners told, and its step set up. -/
theorem Books.installed {call : Call} {step : Step} {x : World} (h : Books words source start x.session.current n n w)
    (hu : w.Announces call u) (hheard : u.Heard x) (hinstalls : x.Installs step v) :
    Books words source start x.session.current (n + 1) n v where
  calls := by rw [hinstalls.calls, hheard.bears.calls, hu.calls, h.calls]
  seq := by rw [hinstalls.seq, hheard.bears.seq, hu.seq, h.seq]
  counted := by rw [hinstalls.counted, hheard.bears.seq, hu.seq, h.seq]
  size := by rw [hinstalls.size, hheard.bears.steps.size, hu.aside.steps, h.size, Nat.add_assoc]
  stops := hinstalls.stops _ (hheard.bears.stopsOnly (hu.aside.stopsOnly h.stops))
  made := Nat.le_succ n

/-- The program comes to a call boundary, and announces its next call; or it fails, for another step is still pending. -/
theorem Underway.hook (herrors : env.RaisesErrors)
    (hlisteners : ∀ name event, (env.react name event).run.All fun o => o.Attends ∧ o.LeavesTrace)
    (hw : w.Sound) (hactive : w.session.isActive = true) (hcurrent : w.session.current = r)
    (htrace : w.session.traceOn = true) (hbooks : Books words source start r n n w) {c : PlannedCall}
    {behind : List String} (hcall : ComesTo words source n c behind)
    (hpassed : w.LastPassed start.gate.steps.size) (hdraws : w.Draws fresh (Text.words source)) {o : Op}
    {k : o.Reply → Routine (Except FaultId Value)} (hnext : Routine.op o k =
      announcing words (ofWords fresh (Text.words source)) (c.opened fresh behind) (c.rest fresh behind)) :
    Books words source start r (n + (w.announcements o).length) n (w.perform env o).2 ∧
      Underway words source start fresh (w.perform env o).2 (n + (w.announcements o).length) n (k (w.perform env o).1) ∧
        ∀ e ∈ w.announcements o, Truthful words source start fresh n e.1 e.2 := by
  unfold announcing at hnext
  cases hnext
  have hcell : Value.list (listAt (c.opened fresh behind).cell) =
      (Value.list (ofWords fresh (Text.words source))).cellOf c.place := (LogoList.cellOf_ofWords hcall.place).symm
  obtain ⟨u, hannounced, hu, hperform⟩ | ⟨hrefused, seq, hperform⟩ := perform_hook_announced herrors w
    { func := (c.opened fresh behind).handler.procedure, args := .sequence 0 (c.opened fresh behind).args,
      body := .list (ofWords fresh (Text.words source)), cell := .list (listAt (c.opened fresh behind).cell) } rfl
  · -- all listeners are told, and the step is set up
    rw [announcements_of_some hannounced, hperform]
    generalize hevent : (⟨w.gate.seq + 1, callName (c.opened fresh behind).handler.procedure, (c.opened fresh behind).args,
      .list (listAt (c.opened fresh behind).cell)⟩ : StepEvent) = event
    obtain ⟨hsound, hextends⟩ := hu.aside.light.grows hw
    have hheard := heard_notify hlisteners event hsound (hextends.isActive hactive)
    have hsame : (notify env event u).2.session.current = w.session.current :=
      congrArg (· - 1) ((hextends.trans hheard.grown).current hactive)
    have hinstalls := installs_installFor hheard.sound
    rw [← hsame]
    generalize (notify env event u).2.installFor (notify env event u).2.session.current = installed at hinstalls ⊢
    obtain ⟨step, v⟩ := installed
    dsimp only at hinstalls ⊢
    have hpoints := hu.pointsAt htrace hcall hdraws rfl hcell
    obtain rfl : (notify env event u).2.session.current = r := hsame.trans hcurrent
    obtain ⟨q, hlast, hfuture⟩ : ∃ q, v.lastStep? start.gate.steps.size = some q ∧ q.future = step.future :=
      hinstalls.lastStep? (by rw [hheard.bears.steps.size, hu.aside.steps, hbooks.size]; exact Nat.le_add_right _ _)
    refine ⟨hbooks.installed hu hheard hinstalls, ?_, fun e he => ?_⟩
    · rw [← hfuture]
      exact .waits hcall hlast (hinstalls.trace.trans hheard.trace ▸ hpoints)
    · rw [List.mem_singleton.1 he]
      refine ⟨⟨c, behind, hcall, ?_, hpoints⟩, (congrArg Array.toList hu.calls).trans hbooks.calls, hsound,
        hextends.isActive hactive⟩
      rw [← hevent, hbooks.seq, callName_procedure, hcell]
      rfl
  · rw [announcements_of_none hrefused, hperform]
    have hbears : w.Bears (w.raise (.ofComplaint (stillPending seq))).2 := (spares_raise w _).bears
    refine ⟨hbooks.bears hbears, .ends (hpassed.kept hbears.steps (.refl _)) ?_, List.forall_mem_nil _⟩
    rintro e ⟨⟩
    exact ⟨_, Faults.get?_add _ _, rfl⟩

/-- The program makes its list of words, and looks at the first one. -/
theorem Underway.begin (hwords : words.IsPlain) (hblank : w.trace.renderer = {})
    (hbooks : Books words source start r 0 0 w) :
    Books words source start r 0 0 (w.newBody (Text.words source)).2 ∧
      Underway words source start w.fresh (w.newBody (Text.words source)).2 0 0
        (SteppedLogo.Words.remaining words true (w.newBody (Text.words source)).1 none
          (LogoList.cells (w.newBody (Text.words source)).1)) := by
  have hbegun := hbooks.bears (bears_of_same rfl rfl rfl rfl rfl : w.Bears (w.newBody (Text.words source)).2)
  have hpassed : (w.newBody (Text.words source)).2.LastPassed start.gate.steps.size := by
    intro q hq
    rw [lastStep?, if_neg (by rw [hbegun.size]; exact Nat.lt_irrefl _)] at hq
    cases hq
  have hdraws : (w.newBody (Text.words source)).2.Draws w.fresh (Text.words source) := .inl ⟨hblank, Nat.le_refl _⟩
  refine ⟨hbegun, ?_⟩
  change Underway words source start w.fresh _ 0 0 (SteppedLogo.Words.remaining words true
    (ofWords w.fresh (Text.words source)) none (ofWords (w.fresh + 0) (Text.words source)).cells)
  exact underway_remaining hwords rfl rfl hpassed hdraws

/-- The word is called, and the program goes on behind it; or it fails, for the word cannot be called so. -/
theorem Underway.invoke (hwords : words.IsPlain) (hw : w.Sound) (hactive : w.session.isActive = true) {c : PlannedCall}
    {behind : List String} (hcall : ComesTo words source n c behind) (hpassed : w.LastPassed start.gate.steps.size)
    (hpoints : w.trace.PointsAt fresh (Text.words source) c.place)
    {k : Except FaultId Value → Routine (Except FaultId Value)}
    (hnext : Routine.op (.invoke c.handler c.args) k =
      invoking words true (ofWords fresh (Text.words source)) (c.opened fresh behind) (c.rest fresh behind)) :
    Underway words source start fresh (w.perform env (.invoke c.handler c.args)).2 (n + 1) (n + 1)
      (k (w.perform env (.invoke c.handler c.args)).1) := by
  have hpassed' : (w.perform env (.invoke c.handler c.args)).2.LastPassed start.gate.steps.size :=
    hpassed.perform hw hactive ⟨⟨trivial, trivial⟩, rfl⟩
  have htrace : (w.perform env (.invoke c.handler c.args)).2.trace = w.trace := trace_invoke c.handler c.args w
  obtain ⟨p, hp⟩ := hcall.primitive
  have hperform : w.perform env (.invoke (.primitive p) c.args) = _ := perform_primitive p c.args w
  rw [← hp] at hperform
  unfold invoking at hnext
  cases hnext
  dsimp only
  split
  · exact .remaining hwords hcall hpassed' (htrace ▸ hpoints)
  · next fault hfault =>
    refine .ends hpassed' ?_
    rintro e ⟨⟩
    rw [hperform] at hfault ⊢
    cases hresult : p.call w.fresh w.turtle c.args with
    | ok effect =>
      rw [hresult] at hfault
      cases hfault
    | error complaint =>
      rw [hresult] at hfault
      cases hfault
      exact ⟨_, Faults.get?_add _ _, (Primitive.call_ordinary hresult).1⟩

/-- The next operation of the program: a call is announced with it at most, and that is the next one. -/
theorem Underway.performs (hwords : words.IsPlain) (herrors : env.RaisesErrors)
    (hlisteners : ∀ name event, (env.react name event).run.All fun o => o.Attends ∧ o.LeavesTrace) (hw : w.Sound)
    (hactive : w.session.isActive = true) (hcurrent : w.session.current = r) (htrace : w.session.traceOn = true)
    (hbooks : Books words source start r n m w) {o : Op} {k : o.Reply → Routine (Except FaultId Value)}
    (h : Underway words source start fresh w n m (.op o k)) :
    ∃ fresh' m', (n = 0 ∨ fresh' = fresh) ∧
      Books words source start r (n + (w.announcements o).length) m' (w.perform env o).2 ∧
      Underway words source start fresh' (w.perform env o).2 (n + (w.announcements o).length) m' (k (w.perform env o).1) ∧
        ∀ e ∈ w.announcements o, Truthful words source start fresh' n e.1 e.2 := by
  generalize hop : Routine.op o k = left at h
  cases h with
  | queued | waits | cut | ends => cases hop
  | opens hblank =>
    rw [execute, run_evaluate] at hop
    cases hop
    obtain ⟨hbegun, hnext⟩ := Underway.begin hwords hblank hbooks
    exact ⟨w.fresh, 0, .inl rfl, hbegun, hnext, List.forall_mem_nil _⟩
  | announces hcall hpassed hdraws =>
    obtain ⟨hafter, hnext, htruthful⟩ := Underway.hook herrors hlisteners hw hactive hcurrent htrace hbooks hcall hpassed hdraws hop
    exact ⟨fresh, n, .inr rfl, hafter, hnext, htruthful⟩
  | @records m c behind hcall hpassed hpoints =>
    unfold recording at hop
    cases hop
    refine ⟨fresh, m + 1, .inr rfl, { hbooks with calls := ?_, made := Nat.le_refl _ }, .invokes hcall hpassed hpoints,
      List.forall_mem_nil _⟩
    rw [hcall.take, ← List.append_assoc, ← hbooks.calls]
    exact Array.toList_push
  | @invokes m c behind hcall hpassed hpoints =>
    have hnext := @Underway.invoke env words source start w fresh m hwords hw hactive c behind hcall hpassed hpoints _ rfl
    unfold invoking at hop
    cases hop
    exact ⟨fresh, m + 1, .inr rfl, hbooks.bears (bears_perform hw hactive ⟨⟨trivial, trivial⟩, rfl⟩), hnext,
      List.forall_mem_nil _⟩
  | raises hordinary hpassed =>
    cases hop
    refine ⟨fresh, n, .inr rfl, hbooks.bears (spares_raise w _).bears,
      .ends (hpassed.perform hw hactive ⟨⟨trivial, trivial⟩, rfl⟩) ?_, List.forall_mem_nil _⟩
    rintro e ⟨⟩
    exact ⟨_, Faults.get?_add _ _, hordinary.1⟩

/-- The last step is one of those set up since the first. -/
theorem lastStep?_get {q : PacedStep} (hq : w.lastStep? first = some q) : ∃ i, first ≤ i ∧ w.gate.steps[i]? = some q := by
  unfold lastStep? at hq
  split at hq
  · next hlt => exact ⟨w.gate.steps.size - 1, by omega, hq⟩
  · cases hq

/-- While others go on, a program that waits goes on waiting. -/
theorem Underway.bides {awaited : Option FutureId} {k : Except FaultId Value → Routine (Except FaultId Value)}
    (h : Underway words source start fresh w n m (.await awaited k)) (hbears : w.Bears v) (htrace : v.trace = w.trace) :
    Underway words source start fresh v n m (.await awaited k) := by
  generalize hleft : Routine.await awaited k = left at h
  cases h with
  | opens | announces | records | invokes | raises | cut | ends => cases hleft
  | queued hblank =>
    cases hleft
    exact .queued (htrace ▸ hblank)
  | waits hcall hlast hpoints =>
    cases hleft
    obtain ⟨q', hlast', hfuture⟩ := hbears.steps.lastStep? hlast
    rw [← hfuture]
    exact .waits hcall hlast' (htrace ▸ hpoints)

/-- What the program receives decides whether it makes the call that has been announced. -/
theorem Underway.receives {awaited : Option FutureId} {k : Except FaultId Value → Routine (Except FaultId Value)}
    (h : Underway words source start fresh w n m (.await awaited k)) (hbooks : Books words source start r n m w)
    {requested : Prop} {received : Except FaultId Value} (hreceives : Scene.Receives w v requested awaited received)
    (hbears : w.Bears v) (hfutures : KeepsFutures w v) (htrace : v.trace = w.trace) :
    Underway words source start fresh v n m (k received) := by
  generalize hleft : Routine.await awaited k = left at h
  cases h with
  | opens | announces | records | invokes | raises | cut | ends => cases hleft
  | queued hblank =>
    cases hleft
    exact .opens (htrace ▸ hblank)
  | @waits m c behind q hcall hlast hpoints =>
    cases hleft
    cases hreceives with
    | nothing hnone => cases hnone
    | value hawaited hvalue =>
      cases hawaited
      refine .records hcall (fun q' hq' => ?_) (htrace ▸ hpoints)
      obtain ⟨q'', hq'', hfuture⟩ := hbears.steps.lastStep? hlast
      rw [hq'] at hq''
      cases hq''
      exact ⟨_, hfuture ▸ hfutures.outcome? hvalue⟩
    | fault hawaited hfault =>
      cases hawaited
      obtain ⟨i, hi, hq⟩ := lastStep?_get hlast
      obtain ⟨f, hf, hkind⟩ := hbooks.stops i q hi hq _ hfault
      obtain ⟨g, hg, -⟩ := hbears.faults _ f hf
      have hrejected : w.LastRejected start.gate.steps.size := ⟨q, _, f, hlast, hfault, hf, hkind⟩
      exact .cut hg (.inl (hrejected.kept hbears.steps hfutures hbears.faults))
    | cancelled hget hkind => exact .cut hget (.inr hkind)

/-- A program is told to stop where it waits, and not interrupted there. -/
theorem Underway.stops {awaited : Option FutureId} {k : Except FaultId Value → Routine (Except FaultId Value)}
    (h : Underway words source start fresh w n m (.await awaited k)) (hbooks : Books words source start r n m w)
    {requested : Prop} {e : FaultId} (hreceives : Scene.Receives w v requested awaited (.error e)) (hbears : w.Bears v) :
    v.faults.kindOf e ≠ .interrupt := by
  generalize hleft : Routine.await awaited k = left at h
  cases hreceives with
  | cancelled hget hkind => simp [kindOf_of_get hget, hkind]
  | fault hawaited hfault =>
    cases h with
    | opens | announces | records | invokes | raises | cut | ends => cases hleft
    | queued => cases hleft; cases hawaited
    | waits hcall hlast hpoints =>
      cases hleft
      cases hawaited
      obtain ⟨i, hi, hq⟩ := lastStep?_get hlast
      obtain ⟨f, hf, hkind⟩ := hbooks.stops i _ hi hq _ hfault
      obtain ⟨g, hg, hagrees⟩ := hbears.faults _ f hf
      simp [kindOf_of_get hg, hagrees.kind, hkind]

/-- Of a run that is over `n` calls have been announced and `m` recorded: all that were announced, or all but the one
whose boundary was rejected or abandoned. -/
inductive Closed (first : Nat) (r : RunId) (w : World) : (n m : Nat) → Prop
  | rejected {n : Nat} (hrejected : w.LastRejected first) : Closed first r w (n + 1) n
  | abandoned {n : Nat} {e : FaultId} {f : Fault} (hover : w.Over r .failed (some e)) (hget : w.faults.get? e = some f)
    (hkind : f.kind = .taskCancelled) : Closed first r w (n + 1) n
  | full {n : Nat} {status : Status} {error : Option FaultId} (hpassed : w.LastPassed first) (hover : w.Over r status error)
    (hinactive : status.isActive = false)
    (hordinary : ∀ e, error = some e → ∃ f, w.faults.get? e = some f ∧ f.kind.isError = true) : Closed first r w n n

/-- A run that is closed stays closed where its end, steps, futures and faults are kept. -/
theorem Closed.kept (h : Closed first r w n m) (hends : w.KeepsEnds v) (hsteps : KeepsSteps w v)
    (hfutures : KeepsFutures w v) (hfaults : w.faults.Keeps v.faults) : Closed first r v n m := by
  cases h with
  | rejected hrejected => exact .rejected (hrejected.kept hsteps hfutures hfaults)
  | abandoned hover hget hkind =>
    obtain ⟨g, hg, hagrees⟩ := hfaults _ _ hget
    exact .abandoned (hends r _ _ rfl hover) hg (hagrees.kind.trans hkind)
  | full hpassed hover hinactive hordinary =>
    refine .full (hpassed.kept hsteps hfutures) (hends r _ _ hinactive hover) hinactive fun e he => ?_
    obtain ⟨f, hf, herror⟩ := hordinary e he
    obtain ⟨g, hg, hagrees⟩ := hfaults e f hf
    exact ⟨g, hg, hagrees.kind ▸ herror⟩

/-- One call more has been announced than recorded exactly if the last call boundary was rejected or abandoned. -/
theorem Closed.apart (h : Closed first r w n m) :
    (n = m + 1 ∧ (w.LastRejected first ∨ w.Abandoned r)) ∨ (n = m ∧ ¬ (w.LastRejected first ∨ w.Abandoned r)) := by
  cases h with
  | rejected hrejected => exact .inl ⟨rfl, .inl hrejected⟩
  | abandoned hover hget hkind => exact .inl ⟨rfl, .inr ⟨_, _, hover.runOf.2, hget, hkind⟩⟩
  | full hpassed hover _ hordinary =>
    refine .inr ⟨rfl, not_or.2 ⟨hpassed.not_rejected, ?_⟩⟩
    rintro ⟨e, f, he, hf, hkind⟩
    obtain ⟨g, hg, herror⟩ := hordinary e (hover.runOf.2.symm.trans he)
    rw [hf] at hg
    cases hg
    rw [hkind] at herror
    cases herror

/-- A program that fails with an error leaves its run failed with that error, or with a stop that is behind it. -/
theorem over_failed (hw : w.Sound) (hup : w.Up id job) (hrun : job.run = some r) {e : FaultId} {f : Fault}
    (he : w.faults.get? e = some f) (herror : f.kind.isError = true) :
    ∃ c g, (w.putDown id job (.finished (.error e))).Over r .failed (some c) ∧
      (w.putDown id job (.finished (.error e))).faults.get? c = some g ∧ g.kind.isError = true := by
  obtain ⟨run, hget, -⟩ := hup.run hw hrun
  cases hfound : w.faults.findCancellation e with
  | some c =>
    obtain ⟨g, hg, hstop⟩ := (endsStopped_putDown hw.toWired hup hrun hget he herror hfound).stop
    exact ⟨c, g, over_finished hw hup hrun (conclude_stopped (r := r) he herror hfound).2, hg, by rw [hstop]; rfl⟩
  | none =>
    obtain ⟨g, hg, hagrees⟩ := (passes_putDown hw hup (.finished (.error e))).spares.faults e f he
    exact ⟨e, g, over_finished hw hup hrun (conclude_failed (r := r) hw.toWired he herror hfound).2, hg,
      hagrees.kind ▸ herror⟩

/-- The program has ended. -/
theorem Underway.finishes (h : Underway words source start fresh w n m (.done result)) (hw : w.Sound) (hup : w.Up id job)
    (hrun : job.run = some r) : Closed start.gate.steps.size r (w.putDown id job (.finished result)) n m := by
  have hspares := (passes_putDown hw hup (.finished result)).spares
  have hfutures := (proceeds_putDown hup (.finished result) hw).2.futures
  generalize hleft : Routine.done result = left at h
  cases h with
  | queued | announces | waits | records | invokes | raises => cases hleft
  | opens =>
    rw [execute, run_evaluate] at hleft
    cases hleft
  | cut hget hwhy =>
    cases hleft
    obtain hrejected | hkind := hwhy
    · exact .rejected (hrejected.kept hspares.steps hfutures hspares.faults)
    · obtain ⟨g, hg, hagrees⟩ := hspares.faults _ _ hget
      exact .abandoned (over_finished hw hup hrun (conclude_cancelled hget hkind).2) hg (hagrees.kind.trans hkind)
  | ends hpassed hordinary =>
    cases hleft
    have hpassed' := hpassed.kept hspares.steps hfutures
    cases result with
    | ok x => exact .full hpassed' (over_finished hw hup hrun (runs_completed w r)) rfl nofun
    | error e =>
      obtain ⟨f, hf, herror⟩ := hordinary e rfl
      obtain ⟨c, g, hover, hg, hkind⟩ := over_failed hw hup hrun hf herror
      refine .full hpassed' hover rfl ?_
      rintro _ ⟨⟩
      exact ⟨g, hg, hkind⟩

end World

end SteppedLogo
