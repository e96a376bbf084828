import SteppedLogo.Proofs.Prompt.Command
import SteppedLogo.Proofs.Schedule.Clock
import SteppedLogo.Proofs.Session.Checked
import SteppedLogo.Proofs.Session.Ending

namespace SteppedLogo

namespace World

variable {env : Env} {w : World} {seconds : Float} {traceOn ownView : Bool}

/-- A bridge opened where its interval is checked: a gate alone, a session, or what a command line asks for. -/
inductive OpensChecked (env : Env) : World → Prop
  | gate {seconds : Float} {w : World} (henv : env.SetsChecked) (h : openGate seconds = .ok w) : OpensChecked env w
  | session {seconds : Float} {traceOn ownView : Bool} {w : World} (henv : env.SetsChecked)
    (h : openSession seconds traceOn ownView = .ok w) : OpensChecked env w
  | launch {c : Catalogue} {s : Surroundings} {signals : Bool} {argv : List String} {b : Bridge} {o : Options}
    (h : (Launch.ofArguments c s signals argv).start = .ready b o) (henv : b.env = env) : OpensChecked env b.world

theorem openGate_of_negative (h : seconds < 0.0) : openGate seconds = .error negativeInterval := by
  rw [openGate, checkInterval, if_pos h]
  rfl

theorem openGate_of_not_negative (h : ¬ seconds < 0.0) :
    openGate seconds = .ok { gate := { interval := seconds } } := by
  rw [openGate, checkInterval, if_neg h]
  rfl

theorem openSession_of_negative (h : seconds < 0.0) (traceOn ownView : Bool) :
    openSession seconds traceOn ownView = .error negativeInterval := by
  rw [openSession, openGate_of_negative h]
  rfl

theorem openSession_of_not_negative (h : ¬ seconds < 0.0) (traceOn ownView : Bool) :
    openSession seconds traceOn ownView = .ok {
      gate := { interval := seconds }
      session := { traceOn }
      hostView := if ownView then some {} else none } := by
  rw [openSession, openGate_of_not_negative h]
  rfl

theorem Fresh.guarded (hfresh : w.Fresh) (h : ¬ w.gate.interval < 0.0) : w.Guarded where
  interval := h
  deed d := by
    rintro ((⟨r, hr, -⟩ | ⟨t, ht, -⟩) | ⟨i, f, hf, -⟩)
    · simp [hfresh.ready] at hr
    · simp [hfresh.timers] at ht
    · simp [hfresh.futures] at hf
  job j job hj := by simp [hfresh.jobs] at hj

/-- A bridge that is opened has the interval that was asked for, which is not negative. -/
theorem openGate_ok (h : openGate seconds = .ok w) :
    ¬ seconds < 0.0 ∧ w.gate.interval = seconds ∧ w.Fresh := by
  by_cases hnegative : seconds < 0.0
  · rw [openGate_of_negative hnegative] at h
    cases h
  · rw [openGate_of_not_negative hnegative] at h
    cases h
    exact ⟨hnegative, rfl, ⟨rfl, rfl, rfl, rfl, rfl, rfl, rfl, rfl⟩⟩

theorem openSession_ok (h : openSession seconds traceOn ownView = .ok w) :
    ¬ seconds < 0.0 ∧ w.gate.interval = seconds ∧ w.Fresh := by
  by_cases hnegative : seconds < 0.0
  · rw [openSession_of_negative hnegative] at h
    cases h
  · refine ⟨hnegative, ?_, openSession_fresh h⟩
    rw [openSession_of_not_negative hnegative] at h
    cases h
    rfl

end World

namespace Launch

open World

/-- Only words of an interpreter are run, and a listener shows the trace. -/
theorem bridge_ok {interval : Float} {trace signals : Bool} {p : Product} {b : Bridge}
    (h : bridge interval trace p signals = .ok b) :
    b.env.SetsChecked ∧ ¬ interval < 0.0 ∧ b.world.gate.interval = interval ∧ b.world.Guarded := by
  unfold bridge at h
  obtain ⟨w, hopen, hb⟩ := ok_of_bind h
  cases hb
  obtain ⟨hnegative, hinterval, hfresh⟩ := openSession_ok hopen
  have hguarded := hfresh.guarded (hinterval ▸ hnegative)
  refine ⟨⟨fun name event => ?_, fun source => ?_⟩, hnegative, hinterval,
    ⟨hguarded.interval, hguarded.deed, hguarded.job⟩⟩
  · change (react name event).run.All Op.IsChecked
    by_cases hname : name = traceListener
    · have hshows : react name event = Reaction.perform (.showTrace event) := if_pos hname
      exact hshows ▸ ⟨trivial, fun _ => trivial⟩
    · have hnothing : react name event = pure () := if_neg hname
      exact hnothing ▸ trivial
  · cases hinterpreter : p.interpreter with
    | none => trivial
    | some i => exact i.program_checked source

/-- A start that is ready has its interval from the settings, and that is not negative. -/
theorem begin_ready {c : Catalogue} {o o' : Options} {signals : Bool} {b : Bridge}
    (h : (begin c o signals).1 = .ready b o') :
    ∃ seconds, o.interval = .value seconds ∧
      b.env.SetsChecked ∧ ¬ seconds < 0.0 ∧ b.world.gate.interval = seconds ∧ b.world.Guarded := by
  unfold begin at h
  split at h
  · cases h
  · cases h
  · next seconds _ hseconds =>
    split at h
    · cases h
    · unfold load at h
      split at h
      · next b' hb =>
        cases h
        obtain ⟨p, -, hbridge⟩ := ok_of_bind hb
        exact ⟨seconds, hseconds, bridge_ok hbridge⟩
      · split at h <;> cases h

theorem ofArguments_ready {c : Catalogue} {s : Surroundings} {signals : Bool} {argv : List String} {b : Bridge}
    {o : Options} (h : (ofArguments c s signals argv).start = .ready b o) : b.env.SetsChecked ∧ b.world.Guarded := by
  unfold ofArguments at h
  dsimp only at h
  split at h
  · cases h
  · split at h
    · cases h
    · split at h
      · cases h
      · obtain ⟨seconds, -, henv, -, -, hguarded⟩ := begin_ready h
        exact ⟨henv, hguarded⟩

end Launch

namespace World

variable {env : Env} {w : World}

theorem OpensChecked.guarded (h : OpensChecked env w) : env.SetsChecked ∧ w.Guarded := by
  cases h with
  | gate henv h =>
    obtain ⟨hnegative, hinterval, hfresh⟩ := openGate_ok h
    exact ⟨henv, hfresh.guarded (hinterval ▸ hnegative)⟩
  | session henv h =>
    obtain ⟨hnegative, hinterval, hfresh⟩ := openSession_ok h
    exact ⟨henv, hfresh.guarded (hinterval ▸ hnegative)⟩
  | launch h henv => exact henv ▸ Launch.ofArguments_ready h

/-- The checks where a bridge is opened: an interval below zero is refused, and any other one is taken. -/
structure OpeningsCheck : Prop where
  gate : ∀ seconds, (seconds < 0.0 → openGate seconds = .error negativeInterval) ∧
    (¬ seconds < 0.0 → ∃ w, openGate seconds = .ok w ∧ w.gate.interval = seconds)
  session : ∀ seconds traceOn ownView, (seconds < 0.0 → openSession seconds traceOn ownView = .error negativeInterval) ∧
    (¬ seconds < 0.0 → ∃ w, openSession seconds traceOn ownView = .ok w ∧ w.gate.interval = seconds)
  commandLine : ∀ c (o : Options) signals target seconds, Launch.given? o.interpreter = some target →
    o.interval = .value seconds →
      (seconds < 0.0 → Launch.begin c o signals = (.halted (.misuse "--interval must not be negative"), [])) ∧
      ∀ b o', (Launch.begin c o signals).1 = .ready b o' → ¬ seconds < 0.0 ∧ b.world.gate.interval = seconds

/-- The interval of a bridge, and the checks where it is set anew: an interval below zero is refused and the old one
    is kept, and any other one is taken. -/
structure IntervalChecked (env : Env) (w : World) : Prop where
  not_negative : ¬ w.gate.interval < 0.0
  nonneg_iff : 0.0 ≤ w.gate.interval ↔ w.gate.interval.isNaN = false
  refused : ∀ seconds, seconds < 0.0 → ∃ fault faults,
    w.perform env (.setPacing seconds) = (.error fault, { w with faults }) ∧
      faults.get? fault = some (.ofComplaint negativeInterval)
  taken : ∀ seconds, ¬ seconds < 0.0 → w.perform env (.setPacing seconds) = (.ok (), w.setInterval seconds)
  commanded : ∀ text, ∃ v, (Prompt.dispatchCommand ["interval", text]).EndsAtOnce env w true v ∧
    v.gate.interval = match Decimal.read? text with
      | some seconds => if seconds < 0.0 then w.gate.interval else seconds
      | none => w.gate.interval

theorem openingsCheck : OpeningsCheck where
  gate seconds := ⟨openGate_of_negative, fun h => ⟨_, openGate_of_not_negative h, rfl⟩⟩
  session seconds traceOn ownView :=
    ⟨fun h => openSession_of_negative h _ _, fun h => ⟨_, openSession_of_not_negative h _ _, rfl⟩⟩
  commandLine c o signals target seconds htarget hseconds := by
    refine ⟨fun h => ?_, fun b o' hready => ?_⟩
    · rw [Launch.begin, htarget, hseconds]
      exact if_pos h
    · obtain ⟨seconds', hseconds', -, hnegative, hinterval, -⟩ := Launch.begin_ready hready
      cases hseconds.symm.trans hseconds'
      exact ⟨hnegative, hinterval⟩

/-- Every double has a place in the order but the one that is no number. -/
theorem isNaN_iff_place {x : Float} : x.isNaN = false ↔ ∃ p, place? x.toModel.unpack = some p := by
  change x.toModel.unpack.isNaN = false ↔ _
  cases x.toModel.unpack with
  | notANumber =>
    refine iff_of_false nofun ?_
    rintro ⟨_, hplace⟩
    cases hplace
  | infinity sign | finite sign => cases sign <;> exact iff_of_true rfl ⟨_, rfl⟩
  | zero => exact iff_of_true rfl ⟨_, rfl⟩

/-- A double that is not below zero is at least zero, unless it is no number. -/
theorem nonneg_iff_of_not_negative {x : Float} (h : ¬ x < 0.0) : 0.0 ≤ x ↔ x.isNaN = false := by
  have hzero : place? (0.0 : Float).toModel.unpack = some (toLex (0, toLex (0, 0))) := by decide +kernel
  rw [isNaN_iff_place, le_iff_place]
  rw [lt_iff_place] at h
  constructor
  · rintro ⟨-, q, -, hq, -⟩
    exact ⟨q, hq⟩
  · rintro ⟨q, hq⟩
    exact ⟨_, q, hzero, hq, not_lt.1 fun hlt => h ⟨q, _, hq, hzero, hlt⟩⟩

theorem commanded_interval (env : Env) (w : World) (text : String) :
    ∃ v, (Prompt.dispatchCommand ["interval", text]).EndsAtOnce env w true v ∧
      v.gate.interval = match Decimal.read? text with
        | some seconds => if seconds < 0.0 then w.gate.interval else seconds
        | none => w.gate.interval := by
  obtain ⟨v, hends, hheeds⟩ : ∃ v, (Prompt.setInterval text).EndsAtOnce env w () v ∧ w.Heeds ["interval", text] v :=
    Prompt.setInterval_ends text
  have hcommanded := hheeds.commanded
  refine ⟨v, hends.bind (Work.endsAtOnce_pure _), ?_⟩
  by_cases hunderstood : Prompt.Understood ["interval", text]
  · obtain ⟨seconds, hread, hnegative⟩ := id hunderstood
    have hinterval := hcommanded.interval hunderstood text rfl
    cases hread.symm.trans hinterval
    rw [hread]
    exact (if_neg hnegative).symm
  · obtain ⟨-, hkept, -, -⟩ := hcommanded.refused hunderstood
    rw [hkept]
    cases hread : Decimal.read? text with
    | none => rfl
    | some seconds =>
      have hnegative : seconds < 0.0 := not_not.1 fun h => hunderstood ⟨seconds, hread, h⟩
      exact (if_pos hnegative).symm

theorem intervalChecked (env : Env) (h : ¬ w.gate.interval < 0.0) : w.IntervalChecked env where
  not_negative := h
  nonneg_iff := nonneg_iff_of_not_negative h
  refused _ hnegative :=
    ⟨_, _, if_pos hnegative, Faults.get?_add w.faults (.ofComplaint negativeInterval)⟩
  taken _ hnegative := if_neg hnegative
  commanded := commanded_interval env w

end World

namespace Scene

open World

variable {env : Env} {w : World} {s : Scene}

/-- Over all steps of a bridge whose opening checks the interval (`OpensChecked`) and whose operations do: the interval is
never below zero, and each check refuses what is below zero and nothing else. The openings check, and what the prompt and
a program of the command line perform is among those operations. -/
theorem interval_never_negative (hopen : OpensChecked env w) (hsteps : Steps env Op.IsChecked { world := w } s) :
    s.world.IntervalChecked env ∧ OpeningsCheck ∧
      (∀ keys, (Launch.runPrompt keys).run.All Op.IsChecked) ∧
      ∀ source, (Launch.runProgram source).run.All Op.IsChecked := by
  obtain ⟨henv, hguarded⟩ := hopen.guarded
  have hinterval := (hsteps.guarded henv (guarded_of_world hguarded)).world.interval
  exact ⟨intervalChecked env hinterval, openingsCheck, Launch.runPrompt_checked, Launch.runProgram_checked⟩

theorem opensChecked_turtle : OpensChecked turtleEnv {} :=
  .session ⟨fun _ _ => trivial, Words.execute_checked turtleWords⟩
    (openSession_of_not_negative (by decide +kernel) true false)

/-- After `setPacing` at one half the interval is one half, and every further value is checked. -/
theorem interval_one_half : OpensChecked turtleEnv {} ∧
    ∃ s, Steps turtleEnv Op.IsChecked { world := {} } s ∧ s.world.gate.interval = 0.5 ∧
      s.world.IntervalChecked turtleEnv := by
  have hset : Steps turtleEnv Op.IsChecked { world := {} }
      { world := (World.perform turtleEnv (.setPacing 0.5) {}).2 } :=
    .single (.perform _ trivial)
  have hopened : ({} : World).IntervalChecked turtleEnv := intervalChecked turtleEnv (by decide +kernel)
  have hhalf := hopened.taken 0.5 (by decide +kernel)
  exact ⟨opensChecked_turtle, _, hset, by rw [hhalf]; rfl, (interval_never_negative opensChecked_turtle hset).1⟩

/-- The interval is set at the prompt, to what is read as no number. -/
def unpaced : Scene :=
  Scene.after turtleEnv 20 { world := (({} : World).addJob (Launch.runPrompt [.line ":interval nan"])).2 }

/-- What is no number passes the check, and the interval is not at least zero then. -/
theorem not_nonneg_of_not_a_number : ¬ ∀ (env : Env) (w : World) (s : Scene), OpensChecked env w →
    Steps env Op.IsChecked { world := w } s → 0.0 ≤ s.world.gate.interval := by
  intro hnonneg
  have hprompt : Step turtleEnv Op.IsChecked { world := {} }
      { world := (({} : World).addJob (Launch.runPrompt [.line ":interval nan"])).2 } :=
    .spawn {} (Launch.runPrompt_checked _)
  have hnonneg := hnonneg turtleEnv {} unpaced opensChecked_turtle (.head hprompt (steps_after 20 _))
  revert hnonneg
  decide +kernel

end Scene

end SteppedLogo
