import SteppedLogo.Proofs.Program.Pacing
import SteppedLogo.Proofs.Session.Scenes

namespace SteppedLogo

open World

namespace Grip

variable {u v w : World} {g : Grip}

/-- What a grip says of the state: what is held is a step, and no other one is outstanding. -/
def Fits (w : World) : Grip → Prop
  | free => True
  | held future => (∃ (i : StepId) (s : PacedStep), w.gate.steps[i]? = some s ∧ s.future = future) ∧
      ∀ (i : StepId) (s : PacedStep), w.gate.steps[i]? = some s → w.isDone s.future = false → s.future = future
  | cleared => w.Clear

/-- The calls that a grip allows without another call boundary. -/
def credit (w : World) : Grip → Nat
  | free => 0
  | held future =>
    match w.outcome? future with
    | some (.value _) => 1
    | _ => 0
  | cleared => 1

theorem credit_le_one (w : World) (g : Grip) : g.credit w ≤ 1 := by
  cases g with
  | free => exact Nat.zero_le 1
  | cleared => exact Nat.le_refl 1
  | held future =>
    simp only [credit]
    split
    · exact Nat.le_refl 1
    · exact Nat.zero_le 1

theorem credit_held_of_value {future : FutureId} {x : Value} (hvalue : w.outcome? future = some (.value x)) :
    (held future).credit w = 1 := by
  simp only [credit, hvalue]

/-- A grip fits as long as no step comes up. -/
theorem Fits.eases (h : g.Fits w) (heases : w.Eases v) : g.Fits v := by
  cases g with
  | free => trivial
  | cleared => exact heases.clear h
  | held future =>
    obtain ⟨⟨i, s, hs, hfuture⟩, honly⟩ := h
    obtain ⟨t, ht, hst⟩ := heases.steps.get hs
    refine ⟨⟨i, t, ht, hst.trans hfuture⟩, fun k t' ht' hopen => ?_⟩
    obtain ⟨s', hs', hst'⟩ := heases.steps.symm.get ht'
    rw [← hst'] at hopen ⊢
    exact honly k s' hs' (heases.futures.open_before hopen)

/-- A grip allows no more as long as no step is settled with a value. -/
theorem Fits.credit_le (h : g.Fits w) (hvalue : ∀ (i : StepId) (s : PacedStep), w.gate.steps[i]? = some s →
    ∀ x, v.outcome? s.future = some (.value x) → w.outcome? s.future = some (.value x)) :
    g.credit v ≤ g.credit w := by
  cases g with
  | free | cleared => exact Nat.le_refl _
  | held future =>
    obtain ⟨⟨i, s, hs, rfl⟩, -⟩ := h
    simp only [credit]
    split
    · next x hx => simp only [hvalue i s hs x hx, Nat.le_refl]
    · exact Nat.zero_le _

/-- Where no step is outstanding, none is settled later. -/
theorem Fits.credit_le_of_clear (h : g.Fits w) (hclear : w.Clear) (hkeeps : KeepsFutures w v) :
    g.credit v ≤ g.credit w := by
  refine h.credit_le fun i s hs x hx => ?_
  have hdone : w.isDone s.future = true := by
    by_contra hopen
    exact hclear i ⟨s, hs, by simpa using hopen⟩
  obtain ⟨o, ho⟩ := isDone_iff.1 hdone
  rw [hkeeps.outcome? ho] at hx
  rw [ho, hx]

end Grip

namespace World

variable {env : Env} {w : World} {g : Grip}

theorem grip_after_quiet {o : Op} (hquiet : o.IsQuiet) (reply : o.Reply) (g : Grip) :
    g.after o reply = g ∨ g.after o reply = .free := by
  cases o with
  | hook | step => cases hquiet
  | invoke => exact .inr rfl
  | _ => exact .inl rfl

/-- An operation leaves a grip that fits. In a run that is to stop it allows no more than before. -/
theorem grip_after (henv : env.Confined) (hw : w.Governed) {o : Op}
    (hop : o.IsQuiet ∨ ∃ call, o = .hook call ∧ w.session.isActive = true) (hg : g.Fits w) :
    (g.after o (w.perform env o).1).Fits (w.perform env o).2 ∧
      ((w.perform env o).2.session.run.status = .canceling →
        (g.after o (w.perform env o).1).credit (w.perform env o).2 ≤ g.credit w) := by
  have hextends := (grows_perform env o w hw.toSound).2
  have hsame : g.credit (w.perform env o).2 ≤ g.credit w :=
    hg.credit_le fun i s _ x hx => hextends.value _ x hx
  obtain hquiet | ⟨call, rfl, hactive⟩ := hop
  · have heases := eases_perform env hquiet hw.toSound
    obtain heq | heq := grip_after_quiet hquiet (w.perform env o).1 g
    · rw [heq]
      exact ⟨hg.eases heases, fun _ => hsame⟩
    · rw [heq]
      exact ⟨trivial, fun _ => Nat.zero_le _⟩
  · obtain ⟨u, htouches, -, -, ⟨fault, heq⟩ | ⟨-, hclear, heq⟩⟩ :=
      perform_hook_cases henv hw.toSound hw.tidy hactive call
    · rw [heq] at hsame ⊢
      exact ⟨hg.eases (htouches.eases hw.toSound), fun _ => hsame⟩
    · have hu := (Changes.grows (Touches.changes htouches) hw.toSound).1
      have hsetUp := setUp_installFor hu hclear
      obtain ⟨s, hs, hfuture⟩ := future_installFor hu
      rw [heq]
      dsimp only
      refine ⟨⟨⟨_, s, hs, hfuture⟩, fun i t ht hopen => ?_⟩, fun hcanceling => ?_⟩
      · obtain rfl := hsetUp.only i ⟨t, ht, hopen⟩
        rw [hs] at ht
        cases ht
        exact hfuture
      · rw [hsetUp.status] at hcanceling
        obtain ⟨-, hrejected⟩ := hsetUp.rejected hcanceling
        change (Grip.held (u.installFor u.session.current).1.future).credit _ ≤ _
        rw [← hfuture]
        simp only [Grip.credit]
        split
        · next x hx => exact absurd hx (hrejected.not_value hs x)
        · exact Nat.zero_le _

end World

namespace Scene

variable {env : Env} {s t : Scene} {u v w : World} {id j : JobId} {job now : Job} {r : RunId} {c : Nat}

/-- Whether the program of a run is about to call a word. -/
def calls (r : RunId) (s : Scene) : Nat :=
  match s.activity with
  | .turn ⟨_, job, .op (.invoke ..) _⟩ => if job.run = some r then 1 else 0
  | _ => 0

/-- The program of a run, if it is under way, may make at most `c` calls without another call
boundary. -/
def Allows (r : RunId) (c : Nat) (s : Scene) : Prop :=
  ∀ (j : JobId) (job : Job), s.world.jobs[j]? = some job → job.run = some r →
    s.world.isDone job.future = false →
    ∃ g : Grip, g.Fits s.world ∧ g.credit s.world ≤ c ∧ (s.left j job).Paced (fun _ _ => True) g

theorem Begins.paced (hpaced : ∀ source, (env.program source).run.Paced (fun _ _ => True) .free)
    (h : Begins env Op.IsQuiet s t j job) (hrun : job.run = some r) : (t.left j job).Paced (fun _ _ => True) .free := by
  obtain ⟨-, code, hleft, -, hprogram⟩ := h
  obtain ⟨source, rfl⟩ := hprogram r hrun
  rw [hleft]
  exact fun _ => hpaced source

theorem Effect.eases (h : Effect env Op.IsQuiet s t) (hs : s.world.Sound) : s.world.Eases t.world := by
  obtain ⟨o, hquiet, hworld⟩ | hcalm := h.world
  · rw [hworld]
    exact eases_perform env hquiet hs
  · exact hcalm.subsides.eases

/-- A run with a job under way that is not running is to stop. -/
theorem canceling_of_open (hs : s.Governed Op.IsQuiet) (hj : s.world.jobs[j]? = some job) (hrun : job.run = some r)
    (hopen : s.world.isDone job.future = false)
    (hstopped : s.world.session.current = r → s.world.session.run.status ≠ .running) :
    s.world.session.run.status = .canceling := by
  obtain ⟨-, hcurrent, hactive⟩ := hs.world.active_of_open hj hrun (.inl hopen)
  exact canceling_of_active hactive (hstopped hcurrent.symm)

/-- Nothing that is performed by no job lets a program in a run that is to stop make more calls. -/
theorem Effect.credit_le (h : Effect env Op.IsQuiet s t) (hs : s.Governed Op.IsQuiet)
    (hcanceling : t.world.session.run.status = .canceling) {g : Grip} (hg : g.Fits s.world) :
    g.credit t.world ≤ g.credit s.world := by
  obtain ⟨o, -, hworld⟩ | hcalm := h.world
  · have hextends := (grows_perform env o s.world hs.world.toSound).2
    rw [← hworld] at hextends
    exact hg.credit_le fun i st _ x hx => hextends.value _ x hx
  · have hbefore : s.world.session.run.status ≠ .running := by
      rw [hcalm.canceling hcanceling]
      nofun
    exact hg.credit_le_of_clear (hs.world.barred hbefore) hcalm.subsides.eases.futures

/-- What is received from a step that is settled with a value is the step that was held, and then no
step is outstanding. -/
theorem Onward.grip {before after : Routine (Except FaultId Value)} {requested : Prop}
    (h : Onward w v requested before after)
    (heases : w.Eases v) {g : Grip} (hg : g.Fits w) (hbefore : before.Paced (fun _ _ => True) g) :
    ∃ g' : Grip, g'.Fits v ∧ after.Paced (fun _ _ => True) g' ∧ (g' = g ∨ g'.credit v ≤ g.credit w) := by
  cases h with
  | stays => exact ⟨g, hg.eases heases, hbefore, .inl rfl⟩
  | @receives awaited received k hreceived =>
    refine ⟨g.received awaited received, ?_, hbefore received, ?_⟩
    · cases g with
      | free => trivial
      | cleared => exact hg.eases heases
      | held future =>
        by_cases hawaited : awaited = some future
        · subst hawaited
          cases received with
          | error fault =>
            rw [Grip.received_held_error]
            trivial
          | ok x =>
            rw [Grip.received_held_ok]
            refine heases.clear fun i hi => ?_
            obtain ⟨st, hst, hopen⟩ := hi
            rw [hg.2 i st hst hopen] at hopen
            cases hreceived with
            | nothing hnone => cases hnone
            | value hfuture hvalue =>
              cases hfuture
              rw [isDone_eq_false, hvalue] at hopen
              cases hopen
        · simp only [Grip.received, if_neg hawaited]
          exact hg.eases heases
    · cases g with
      | free | cleared => exact .inl rfl
      | held future =>
        by_cases hawaited : awaited = some future
        · subst hawaited
          cases received with
          | error fault =>
            rw [Grip.received_held_error]
            exact .inr (Nat.zero_le _)
          | ok x =>
            rw [Grip.received_held_ok]
            cases hreceived with
            | nothing hnone => cases hnone
            | value hfuture hvalue =>
              cases hfuture
              rw [Grip.credit_held_of_value hvalue]
              exact .inr (Nat.le_refl 1)
        · exact .inl (if_neg hawaited)

/-- A step in which no job performs an operation allows no more calls in a run that is to stop. -/
theorem Effect.allows (hpaced : ∀ source, (env.program source).run.Paced (fun _ _ => True) .free)
    (h : Effect env Op.IsQuiet s t) (hs : s.Governed Op.IsQuiet) (hallows : s.Allows r c)
    (hstopped : c = 0 → t.world.session.current = r → t.world.session.run.status ≠ .running) :
    t.Allows r c := by
  intro j job hj hrun hopen
  obtain hbegins | ⟨old, hold, hfuture, hsame, honward⟩ := h.left j job hj hopen
  · exact ⟨.free, trivial, Nat.zero_le c, hbegins.paced hpaced hrun⟩
  · have holdOpen := h.follows.futures.open_before (hfuture ▸ hopen)
    obtain ⟨g, hg, hcredit, hbefore⟩ := hallows j old hold (hsame ▸ hrun) holdOpen
    obtain ⟨g', hg', hafter, hle⟩ := honward.grip (h.eases hs.world.toSound) hg hbefore
    refine ⟨g', hg', ?_, hafter⟩
    obtain hc | hc := Nat.eq_zero_or_pos c
    · obtain rfl | hle := hle
      · have hcanceling := canceling_of_open (h.governed Op.guards_quiet hs) hj hrun hopen (hstopped hc)
        exact Nat.le_trans (h.credit_le hs hcanceling hg) hcredit
      · exact Nat.le_trans hle hcredit
    · exact Nat.le_trans (Grip.credit_le_one _ g') hc

theorem calls_le_one (r : RunId) (s : Scene) : s.calls r ≤ 1 := by
  unfold calls
  split
  · split
    · exact Nat.le_refl 1
    · exact Nat.zero_le 1
  · exact Nat.zero_le 1

/-- A call is about to be made by the job of the run alone. -/
theorem calls_of_ne (w : World) (id : JobId) {job : Job} (hrun : job.run ≠ some r)
    (rest : Routine (Except FaultId Value)) :
    ({ world := w, activity := .turn ⟨id, job, rest⟩ } : Scene).calls r = 0 := by
  unfold calls
  split
  · next heq =>
    cases heq
    exact if_neg hrun
  · rfl

theorem calls_op_le (w : World) (id : JobId) (job : Job) {o : Op} {k : o.Reply → Routine (Except FaultId Value)}
    {g : Grip} (hpermitted : o.Permitted g) (reply : o.Reply) (v : World) :
    (g.after o reply).credit v + ({ world := w, activity := .turn ⟨id, job, .op o k⟩ } : Scene).calls r ≤ 1 ∧
      (({ world := w, activity := .turn ⟨id, job, .op o k⟩ } : Scene).calls r = 1 →
        g.credit w = 1 ∧ (g.after o reply).credit v = 0) := by
  cases o with
  | invoke handler args =>
    cases hpermitted
    exact ⟨by simpa [Grip.after, Grip.credit] using calls_le_one r _, fun _ => ⟨rfl, rfl⟩⟩
  | _ => exact ⟨Grip.credit_le_one v _, fun hone => by (cases hone)⟩

/-- The calls that are left to the job that has its turn: fewer by the one that its operation makes. -/
theorem op_allows_self (henv : env.Confined) (hw : w.Governed) {o : Op} {k : o.Reply → Routine (Except FaultId Value)}
    (hop : o.IsQuiet ∨ ∃ call, o = .hook call ∧ w.session.isActive = true) {g : Grip} (hg : g.Fits w)
    (hcredit : g.credit w ≤ c) (hpaced : (Routine.op o k).Paced (fun _ _ => True) g)
    (hstops : c = 0 → (w.perform env o).2.session.run.status = .canceling) :
    ∃ g' : Grip, g'.Fits (w.perform env o).2 ∧
      g'.credit (w.perform env o).2 ≤ c - ({ world := w, activity := .turn ⟨id, job, .op o k⟩ } : Scene).calls r ∧
      (k (w.perform env o).1).Paced (fun _ _ => True) g' := by
  obtain ⟨hpermitted, hrest⟩ := hpaced
  obtain ⟨hfits, hle⟩ := grip_after henv hw hop hg
  refine ⟨_, hfits, ?_, hrest _⟩
  have huses := calls_op_le (r := r) (k := k) w id job hpermitted (w.perform env o).1 (w.perform env o).2
  obtain hc | hc := Nat.eq_zero_or_pos c
  · have hnone : (g.after o (w.perform env o).1).credit (w.perform env o).2 ≤ g.credit w := hle (hstops hc)
    omega
  · have hused := calls_le_one r { world := w, activity := .turn ⟨id, job, .op o k⟩ }
    omega

/-- The job of a run is not the one that has its turn: that one makes no call boundary, since it is of no
run that is under way. -/
theorem Governed.quiet_beside {o : Op} {k : o.Reply → Routine (Except FaultId Value)}
    (hs : ({ world := w, activity := .turn ⟨id, job, .op o k⟩ } : Scene).Governed Op.IsQuiet) {old : Job}
    (hold : w.jobs[j]? = some old) (hrun : old.run = some r) (hopen : w.isDone old.future = false) (h : id ≠ j) :
    job.run ≠ some r ∧ o.IsQuiet := by
  have hup : w.Up id job := hs.turn _ rfl
  have hsound := hs.world.toSound
  obtain ⟨before, hbefore, -, hbeforeRun, -⟩ := hup.get
  have hne : job.run ≠ some r := fun hjob =>
    h (hsound.job_unique id j before old r hbefore hold (hbeforeRun.trans hjob) hrun)
  refine ⟨hne, ?_⟩
  obtain hquiet | ⟨call, q, -, hq, hactive⟩ := hs.quiet_or_hook Op.guards_quiet
  · exact hquiet
  · have hcurrent := (hup.active hsound hq).1
    obtain ⟨-, hr, -⟩ := hsound.active_of_open hold hrun (.inl hopen)
    exact absurd (by rw [hq, hcurrent, hr]) hne

/-- An operation of the job of a run uses up the call that it makes. -/
theorem op_allows (henv : env.Confined)
    (hpaced : ∀ source, (env.program source).run.Paced (fun _ _ => True) .free) {o : Op}
    {k : o.Reply → Routine (Except FaultId Value)}
    (hs : ({ world := w, activity := .turn ⟨id, job, .op o k⟩ } : Scene).Governed Op.IsQuiet)
    (hallows : ({ world := w, activity := .turn ⟨id, job, .op o k⟩ } : Scene).Allows r c)
    (hstopped : c = 0 → (w.perform env o).2.session.current = r →
      (w.perform env o).2.session.run.status ≠ .running) :
    ∃ c', ({ world := (w.perform env o).2, activity := .turn ⟨id, job, k (w.perform env o).1⟩ } : Scene).Allows r c' ∧
      c' + ({ world := w, activity := .turn ⟨id, job, .op o k⟩ } : Scene).calls r ≤ c := by
  have hup : w.Up id job := hs.turn _ rfl
  have hafter := governed_op Op.guards_quiet henv hs
  obtain ⟨before, hbefore, hbeforeFuture, hbeforeRun, -⟩ := hup.get
  have hextends := (grows_perform env o w hs.world.toSound).2
  have hop : o.IsQuiet ∨ ∃ call, o = .hook call ∧ w.session.isActive = true := by
    obtain hquiet | ⟨call, q, ho, -, hactive⟩ := hs.quiet_or_hook Op.guards_quiet
    · exact .inl hquiet
    · exact .inr ⟨call, ho, hactive⟩
  -- the job that has its turn, where it is the job of the run
  have hown (hrun : job.run = some r) : ∃ g : Grip, g.Fits w ∧ g.credit w ≤ c ∧
      (Routine.op o k).Paced (fun _ _ => True) g := by
    obtain ⟨g, hg, hcredit, hpaced⟩ := hallows id before hbefore (hbeforeRun.trans hrun)
      (by rw [hbeforeFuture]; exact isDone_eq_false.2 hup.undone)
    rw [left_self] at hpaced
    exact ⟨g, hg, hcredit, hpaced⟩
  have hcalls : ({ world := w, activity := .turn ⟨id, job, .op o k⟩ } : Scene).calls r ≤ c := by
    by_cases hrun : job.run = some r
    · obtain ⟨g, -, hcredit, hpermitted, -⟩ := hown hrun
      have huses := (calls_op_le (r := r) (k := k) w id job hpermitted (w.perform env o).1 w).2
      have hle := calls_le_one r { world := w, activity := .turn ⟨id, job, .op o k⟩ }
      omega
    · rw [calls_of_ne w id hrun]
      exact Nat.zero_le c
  refine ⟨c - ({ world := w, activity := .turn ⟨id, job, .op o k⟩ } : Scene).calls r, fun j now hj hrun hopen => ?_,
    Nat.le_of_eq (Nat.sub_add_cancel hcalls)⟩
  obtain hbegins | ⟨old, hold, hfuture, hsame, hleft⟩ := left_op Op.guards_quiet henv hs hj
  · exact ⟨.free, trivial, Nat.zero_le _, hbegins.paced hpaced hrun⟩
  have holdRun : old.run = some r := hsame.symm.trans hrun
  by_cases h : id = j
  · subst h
    rw [hbefore] at hold
    cases hold
    obtain ⟨g, hg, hcredit, hheld⟩ := hown (hbeforeRun.symm.trans holdRun)
    rw [left_self]
    exact op_allows_self henv hs.world hop hg hcredit hheld
      fun hc => canceling_of_open hafter hj hrun hopen (hstopped hc)
  · have holdOpen : w.isDone old.future = false := hextends.futures.open_before (hfuture ▸ hopen)
    obtain ⟨hne, hquiet⟩ := hs.quiet_beside hold holdRun holdOpen h
    obtain ⟨g, hg, hcredit, hpacedOld⟩ := hallows j old hold holdRun holdOpen
    refine ⟨g, hg.eases (eases_perform env hquiet hs.world.toSound), ?_, hleft h ▸ hpacedOld⟩
    rw [calls_of_ne w id hne, Nat.sub_zero]
    exact Nat.le_trans (hg.credit_le fun i s _ x hx => hextends.value _ x hx) hcredit

/-- What a step uses up of the calls that are left in a run. -/
theorem Step.allows (henv : env.Confined)
    (hpaced : ∀ source, (env.program source).run.Paced (fun _ _ => True) .free) (hs : s.Governed Op.IsQuiet)
    (h : Step env Op.IsQuiet s t) (hallows : s.Allows r c)
    (hstopped : c = 0 → t.world.session.current = r → t.world.session.run.status ≠ .running) :
    ∃ c', t.Allows r c' ∧ c' + s.calls r ≤ c := by
  obtain ⟨w, id, job, o, k, rfl, rfl⟩ | ⟨hidle, heffect⟩ := h.op_or_effect Op.guards_quiet henv hs
  · exact op_allows henv hpaced hs hallows hstopped
  · have hnone : s.calls r = 0 := by
      unfold calls
      split
      · next hturn => exact absurd hturn (hidle _ _ _ _)
      · rfl
    exact ⟨c, heffect.allows hpaced hs hallows hstopped, by rw [hnone]; exact Nat.le_refl c⟩

/-- A way from scene to scene, with the number of calls that the program of a run starts on it. -/
inductive Course (env : Env) (P : Op → Prop) (r : RunId) (s : Scene) : Nat → Scene → Prop
  | start : Course env P r s 0 s
  | step {n : Nat} {t u : Scene} (hcourse : Course env P r s n t) (hstep : Step env P t u) :
    Course env P r s (n + t.calls r) u

theorem exists_course {P : Op → Prop} (h : Steps env P s t) (r : RunId) : ∃ n, Course env P r s n t := by
  induction h with
  | refl => exact ⟨0, .start⟩
  | tail _ hstep ih =>
    obtain ⟨n, hcourse⟩ := ih
    exact ⟨_, hcourse.step hstep⟩

theorem Course.governed (henv : env.Confined) (hs : s.Governed Op.IsQuiet) {n : Nat}
    (h : Course env Op.IsQuiet r s n t) : t.Governed Op.IsQuiet := by
  induction h with
  | start => exact hs
  | step _ hstep ih => exact hstep.governed Op.guards_quiet henv ih

/-- The calls that start in a run that is to stop are those that its program was allowed. -/
theorem Course.allows (henv : env.Confined)
    (hpaced : ∀ source, (env.program source).run.Paced (fun _ _ => True) .free) (hs : s.Governed Op.IsQuiet) {n : Nat}
    (h : Course env Op.IsQuiet r s n t) (hallows : s.Allows r c)
    (hstopped : ∀ m u, Course env Op.IsQuiet r s m u → u.world.session.current = r →
      u.world.session.run.status ≠ .running) : ∃ c', t.Allows r c' ∧ c' + n ≤ c := by
  induction h with
  | start => exact ⟨c, hallows, Nat.le_refl c⟩
  | step hcourse hstep ih =>
    obtain ⟨c', hbefore, hle⟩ := ih
    obtain ⟨c'', hafter, hle'⟩ := hstep.allows henv hpaced (hcourse.governed henv hs) hbefore
      fun _ => hstopped _ _ (hcourse.step hstep)
    exact ⟨c'', hafter, by omega⟩

theorem Allows.mono (h : s.Allows r c) {c' : Nat} (hle : c ≤ c') : s.Allows r c' := by
  intro j job hj hrun hopen
  obtain ⟨g, hg, hcredit, hpaced⟩ := h j job hj hrun hopen
  exact ⟨g, hg, Nat.le_trans hcredit hle, hpaced⟩

/-- A program that waits for its call boundaries never has more than one call left. -/
theorem Reachable.allows_one (henv : env.Confined)
    (hpaced : ∀ source, (env.program source).run.Paced (fun _ _ => True) .free)
    (hs : Reachable env Op.IsQuiet s) (r : RunId) : s.Allows r 1 := by
  obtain ⟨w, hfresh, hsteps⟩ := hs
  induction hsteps with
  | refl =>
    intro j job hj
    have hj : w.jobs[j]? = some job := hj
    simp [hfresh.jobs] at hj
  | tail hbefore hstep ih =>
    have hgoverned := Reachable.governed Op.guards_quiet henv ⟨w, hfresh, hbefore⟩
    obtain ⟨c', hafter, hle⟩ := hstep.allows henv hpaced hgoverned ih nofun
    exact hafter.mono (by omega)

/-- While a step is outstanding, no call is left without another call boundary. -/
theorem Allows.zero_of_outstanding (h : s.Allows r c) {i : StepId} (hi : s.world.Outstanding i) :
    s.Allows r 0 := by
  intro j job hj hrun hopen
  obtain ⟨g, hg, -, hpaced⟩ := h j job hj hrun hopen
  refine ⟨g, hg, ?_, hpaced⟩
  cases g with
  | free => exact Nat.le_refl 0
  | cleared => exact absurd hi (hg i)
  | held future =>
    obtain ⟨st, hst, hopen⟩ := hi
    rw [hg.2 i st hst hopen, isDone_eq_false] at hopen
    simp only [Grip.credit, hopen, Nat.le_refl]

end Scene

end SteppedLogo
