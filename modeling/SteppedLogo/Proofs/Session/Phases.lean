import SteppedLogo.Proofs.Session.Paced
import SteppedLogo.Proofs.Session.Scenes

namespace SteppedLogo.World

open Words

variable {env : Env} {words : Words} {source : String} {start u v w : World} {n : Nat} {r : RunId}
variable {body : LogoList} {c : OpenCall} {cells : List Cell} {open_ : Option OpenCall}
variable {rest : Routine (Except FaultId Value)} {stops : Prop}

/-- What the program has done, begun in `start`, is what it does without its call boundaries to where
`rest` is left of it, after `n` calls. -/
def Abreast (env : Env) (words : Words) (source : String) (start : World) (n : Nat)
    (rest : Routine (Except FaultId Value)) (w : World) : Prop :=
  ∃ u, (evaluate words false source).run.Reaches env start n rest u ∧ u.Alike w

theorem Abreast.alike (h : Abreast env words source start n rest w) (halike : w.Alike v) :
    Abreast env words source start n rest v := by
  obtain ⟨u, hreaches, hu⟩ := h
  exact ⟨u, hreaches, hu.trans halike⟩

/-- What the program has done is what it does without its call boundaries, cut short after `n` calls. -/
structure Cut (env : Env) (words : Words) (source : String) (start : World) (n : Nat) (w : World) : Prop where
  calls : w.calls.size = start.calls.size + n
  begins : w.calls.toList <+: ((evaluate words false source).run.run env start).2.calls.toList
  alike : ((evaluate words false source).run.afterCalls env n start).2.Alike w

theorem Cut.mono (h : Cut env words source start n w) (halike : w.Alike v) : Cut env words source start n v :=
  ⟨halike.calls ▸ h.calls, halike.calls ▸ h.begins, h.alike.trans halike⟩

/-- Where no more is done before the next call, the program is cut short. -/
theorem Abreast.cut (h : Abreast env words source start n rest w) (hcompletes : ∀ v, rest.Completes env v)
    (hstays : ∀ v : World, v.Alike (rest.afterCalls env 0 v).2) : Cut env words source start n w := by
  obtain ⟨u, hreaches, hu⟩ := h
  refine ⟨by rw [hu.calls, hreaches.calls], ?_, ?_⟩
  · rw [hu.calls, hreaches.run]
    exact (hcompletes u).2
  · have hstop := hreaches.afterCalls 0
    rw [Nat.add_zero] at hstop
    rw [hstop]
    exact (hstays u).symm.trans hu

theorem Abreast.cut_recording (hwords : words.IsPlain) (hc : ∃ p, c.handler = .primitive p)
    (h : Abreast env words source start n (recording words false body c cells) w) :
    Cut env words source start n w :=
  h.cut (completes_recording hc (completes_remaining hwords body cells nofun)) fun v => .refl v

theorem Abreast.cut_remaining (hwords : words.IsPlain) (hopen : ∀ c, open_ = some c → ∃ p, c.handler = .primitive p)
    (h : Abreast env words source start n (remaining words false body open_ cells) w) :
    Cut env words source start n w := by
  refine h.cut (completes_remaining hwords body cells hopen) fun v => ?_
  obtain hdone | ⟨complaint, -, hraise⟩ | ⟨d, later, -, -, hdirect, -⟩ := remaining_cases hwords body cells hopen
  · rw [hdone]
    exact .refl v
  · rw [hraise]
    exact (spares_raise v (.ofComplaint complaint)).alike
  · rw [hdirect]
    exact .refl v

theorem Abreast.cut_done {result : Except FaultId Value} (h : Abreast env words source start n (.done result) w) :
    Cut env words source start n w :=
  h.cut (fun _ => ⟨⟨result, rfl⟩, List.prefix_refl _⟩) fun v => .refl v

/-- Where nothing has been done since the start, the program is abreast at its first word. -/
theorem abreast_begun (hfresh : w.fresh = start.fresh) (halike : start.Alike w) (env : Env) (words : Words)
    (source : String) :
    Abreast env words source start 0 (remaining words false (w.newBody (Text.words source)).1 none
      (LogoList.cells (w.newBody (Text.words source)).1)) w := by
  have hbegun : (evaluate words false source).run.Reaches env start 0 _ _ :=
    Routine.Reaches.op (Routine.Reaches.refl _ start) rfl rfl
  have hbody : (w.newBody (Text.words source)).1 = (start.newBody (Text.words source)).1 := by
    simp only [newBody, hfresh]
  rw [hbody]
  exact ⟨_, hbegun, ⟨halike.calls, halike.turtle, halike.accepts, halike.printed, halike.lines⟩⟩

/-- Between two states steps are settled by their pacing alone, unless the program may be stopped. -/
def Paces (stops : Prop) (w v : World) : Prop :=
  ∀ (i : StepId) (s : PacedStep), v.gate.steps[i]? = some s → ∀ o, v.outcome? s.future = some o →
    stops ∨ w.outcome? s.future = some o ∨ ∃ x, o = .value x

/-- What the program ends with: what it ends with without its call boundaries too, or, if it may be stopped, the
rejection of the step before its next call, or the cancellation of its job. -/
inductive Result (env : Env) (words : Words) (source : String) (start : World) (r : RunId) (stops : Prop) (n : Nat)
    (w : World) : Except FaultId Value → Prop
  | completed {u : World} (hrun : (evaluate words false source).run.run env start = (.finished (.ok .none), u))
    (halike : u.Alike w) (hpending : w.gate.pending = none) : Result env words source start r stops n w (.ok .none)
  | failed {u : World} {complaint : Complaint} {d fault : FaultId} (hordinary : complaint.Ordinary)
    (hrun : (evaluate words false source).run.run env start = (.finished (.error d), u)) (halike : u.Alike w)
    (hd : u.faults.get? d = some (.ofComplaint complaint)) (hfault : w.faults.get? fault = some (.ofComplaint complaint))
    (hpending : w.gate.pending = none) : Result env words source start r stops n w (.error fault)
  | rejected {f : Fault} {fault : FaultId} (hsteps : (w.runOf r).steps = n + 1) (hfault : w.faults.get? fault = some f)
    (hkind : f.kind = .cancellation) (hstops : stops) : Result env words source start r stops n w (.error fault)
  | cancelled {f : Fault} {fault : FaultId} (hfault : w.faults.get? fault = some f) (hkind : f.kind = .taskCancelled)
    (hstops : stops) : Result env words source start r stops n w (.error fault)

/-- Where the program waits: for its first turn, or at a call boundary. -/
inductive Parked (env : Env) (words : Words) (source : String) (start : World) (r : RunId) (stops : Prop) (w : World) :
    Option FutureId → (Except FaultId Value → Routine (Except FaultId Value)) → Prop
  | queued (hfresh : w.fresh = start.fresh) (halike : start.Alike w) (hseq : w.gate.seq = 0)
    (hpending : w.gate.pending = none) :
    Parked env words source start r stops w none fun _ => (execute words source).run
  | waiting {n : Nat} {body : LogoList} {c : OpenCall} {cells : List Cell} {i : StepId} {s : PacedStep}
    (hc : ∃ p, c.handler = .primitive p)
    (habreast : Abreast env words source start n (recording words false body c cells) w)
    (hstep : w.gate.steps[i]? = some s) (hseq : w.gate.seq = n + 1) (hsteps : (w.runOf r).steps = n + 1)
    (hpending : ∀ k, w.gate.pending = some k → k = i)
    (hreleased : ∀ o, w.outcome? s.future = some o → w.Released i o)
    (hpaced : ∀ o, w.outcome? s.future = some o → stops ∨ ∃ x, o = .value x) :
    Parked env words source start r stops w (some s.future) (passed words body c cells)

/-- What is left of the program, by what it does next. -/
inductive Phase (env : Env) (words : Words) (source : String) (start : World) (r : RunId) (stops : Prop)
    (w : World) :
    Routine (Except FaultId Value) → Prop
  | parked {awaited : Option FutureId} {k : Except FaultId Value → Routine (Except FaultId Value)}
    (hparked : Parked env words source start r stops w awaited k) : Phase env words source start r stops w (.await awaited k)
  | begun (hfresh : w.fresh = start.fresh) (halike : start.Alike w) (hseq : w.gate.seq = 0)
    (hpending : w.gate.pending = none) : Phase env words source start r stops w (execute words source).run
  | announcing {n : Nat} {body : LogoList} {c : OpenCall} {cells : List Cell} (hc : ∃ p, c.handler = .primitive p)
    (habreast : Abreast env words source start n (recording words false body c cells) w) (hseq : w.gate.seq = n)
    (hpending : w.gate.pending = none) : Phase env words source start r stops w (announcing words body c cells)
  | recording {n : Nat} {body : LogoList} {c : OpenCall} {cells : List Cell} (hc : ∃ p, c.handler = .primitive p)
    (habreast : Abreast env words source start n (recording words false body c cells) w) (hseq : w.gate.seq = n + 1)
    (hpending : w.gate.pending = none) : Phase env words source start r stops w (recording words true body c cells)
  | invoking {n : Nat} {body : LogoList} {c : OpenCall} {cells : List Cell} (hc : ∃ p, c.handler = .primitive p)
    (habreast : Abreast env words source start (n + 1) (invoking words false body c cells) w)
    (hseq : w.gate.seq = n + 1) (hpending : w.gate.pending = none) :
    Phase env words source start r stops w (invoking words true body c cells)
  | raising {n : Nat} {complaint : Complaint} (hordinary : complaint.Ordinary)
    (habreast : Abreast env words source start n
      (.op (.raise (.plain complaint)) fun fault => .done (.error fault)) w) (hpending : w.gate.pending = none) :
    Phase env words source start r stops w (.op (.raise (.plain complaint)) fun fault => .done (.error fault))
  | done {n : Nat} {result : Except FaultId Value} (hcut : Cut env words source start n w)
    (hresult : Result env words source start r stops n w result) : Phase env words source start r stops w (.done result)

theorem Abreast.completed (h : Abreast env words source start n (.done (.ok .none)) w) (hpending : w.gate.pending = none) :
    Result env words source start r stops n w (.ok .none) := by
  obtain ⟨u, hreaches, hu⟩ := h
  exact .completed hreaches.run hu hpending

/-- The program goes on with its next word. -/
theorem phase_remaining (hwords : words.IsPlain) (hopen : ∀ c, open_ = some c → ∃ p, c.handler = .primitive p)
    (h : Abreast env words source start n (remaining words false body open_ cells) w) (hseq : w.gate.seq = n)
    (hpending : w.gate.pending = none) :
    Phase env words source start r stops w (remaining words true body open_ cells) := by
  obtain hdone | ⟨complaint, hordinary, hraise⟩ | ⟨c, later, -, hc, hdirect, hgated⟩ :=
    remaining_cases hwords body cells hopen
  · rw [hdone] at h ⊢
    exact .done h.cut_done (h.completed hpending)
  · rw [hraise] at h ⊢
    exact .raising hordinary h hpending
  · rw [hdirect] at h
    rw [hgated]
    exact .announcing hc h hseq hpending

theorem Cut.spares (h : Cut env words source start n w) (hspares : w.Spares v) : Cut env words source start n v :=
  h.mono hspares.alike

theorem Parked.cut (hwords : words.IsPlain) {awaited : Option FutureId}
    {k : Except FaultId Value → Routine (Except FaultId Value)} (h : Parked env words source start r stops w awaited k) :
    ∃ n, Cut env words source start n w := by
  cases h with
  | queued hfresh halike => exact ⟨0, (abreast_begun hfresh halike env words source).cut_remaining hwords
    fun _ h => by cases h⟩
  | waiting hc habreast => exact ⟨_, habreast.cut_recording hwords hc⟩

/-- What goes on beside the program leaves it where it waits. -/
theorem Parked.spares {awaited : Option FutureId} {k : Except FaultId Value → Routine (Except FaultId Value)}
    (h : Parked env words source start r stops w awaited k) (hspares : w.Spares v) (hpaces : Paces stops w v) :
    Parked env words source start r stops v awaited k := by
  have hoff (hpending : w.gate.pending = none) : v.gate.pending = none := by
    cases hv : v.gate.pending with
    | none => rfl
    | some i =>
      rw [hspares.pending i hv] at hpending
      cases hpending
  cases h with
  | queued hfresh halike hseq hpending =>
    exact .queued (hspares.fresh.trans hfresh) (halike.trans hspares.alike) (hspares.seq.trans hseq) (hoff hpending)
  | @waiting n body c cells i s hc habreast hstep hseq hsteps hpending hreleased hpaced =>
    obtain ⟨t, ht, hst⟩ := hspares.steps.get hstep
    rw [← hst]
    refine .waiting hc (habreast.alike hspares.alike) ht (hspares.seq.trans hseq) ((hspares.runOf_steps r).trans hsteps)
      (fun k hk => hpending k (hspares.pending k hk)) (fun o ho => ?_) fun o ho => ?_
    · obtain hbefore | hreleased' := hspares.settled i s hstep o (hst ▸ ho)
      · exact (hreleased o hbefore).mono hspares.pending hspares.faults
      · exact hreleased'
    · obtain hstops | hbefore | hvalue := hpaces i t ht o ho
      · exact .inl hstops
      · exact hpaced o (hst ▸ hbefore)
      · exact .inr hvalue

/-- What the program receives decides whether it calls the word. -/
theorem Parked.receives {awaited : Option FutureId} {k : Except FaultId Value → Routine (Except FaultId Value)}
    (hwords : words.IsPlain) (h : Parked env words source start r stops w awaited k) {received : Except FaultId Value}
    {requested : Prop} (hreceives : Scene.Receives w v requested awaited received) (hrequested : requested → stops)
    (hspares : w.Spares v) (hpaces : Paces stops w v) :
    Phase env words source start r stops v (k received) := by
  have hafter := h.spares hspares hpaces
  cases h with
  | queued =>
    cases hafter with
    | queued hfresh halike hseq hpending => exact .begun hfresh halike hseq hpending
  | @waiting n body c cells i s hc habreast hstep hseq hsteps hpending hreleased hpaced =>
    have hcut := (habreast.cut_recording hwords hc).spares hspares
    cases hreceives with
    | nothing hnone => cases hnone
    | value hawaited hvalue =>
      cases hawaited
      have hoff : w.gate.pending ≠ some i := hreleased _ hvalue
      refine .recording hc (habreast.alike hspares.alike) (hspares.seq.trans hseq) ?_
      cases hv : v.gate.pending with
      | none => rfl
      | some j =>
        have hj := hspares.pending j hv
        rw [hpending j hj] at hj
        exact absurd hj hoff
    | fault hawaited hfault =>
      cases hawaited
      obtain ⟨-, f, hf, hkind⟩ := hreleased _ hfault
      obtain ⟨g, hg, hagrees⟩ := hspares.faults _ f hf
      have hstops : stops := (hpaced _ hfault).resolve_right fun ⟨_, hvalue⟩ => by cases hvalue
      exact .done hcut (.rejected ((hspares.runOf_steps r).trans hsteps) hg (hagrees.kind.trans hkind) hstops)
    | cancelled hget hkind _ hwhy =>
      refine .done hcut (.cancelled hget hkind ?_)
      obtain hcancel | ⟨future, hawaited, hcancelled⟩ := hwhy
      · exact hrequested hcancel
      · cases hawaited
        exact (hpaced _ hcancelled).resolve_right fun ⟨_, hvalue⟩ => by cases hvalue

theorem phase_failed {complaint : Complaint} {d fault : FaultId} (hordinary : complaint.Ordinary)
    (hreaches : (evaluate words false source).run.Reaches env start n (.done (.error d)) u) (halike : u.Alike w)
    (hd : u.faults.get? d = some (.ofComplaint complaint)) (hfault : w.faults.get? fault = some (.ofComplaint complaint))
    (hpending : w.gate.pending = none) : Phase env words source start r stops w (.done (.error fault)) :=
  have habreast : Abreast env words source start n (.done (.error d)) w := ⟨u, hreaches, halike⟩
  .done habreast.cut_done (.failed hordinary hreaches.run halike hd hfault hpending)

/-- A call boundary is made: the program comes to wait for its step. -/
theorem phase_announced (hlisteners : env.GoesBeside) (hw : w.Sound)
    (hactive : w.session.isActive = true) (hcurrent : w.session.current = r) {o : Op}
    {k : o.Reply → Routine (Except FaultId Value)} (hpaces : Paces stops w (w.perform env o).2)
    (hop : Routine.op o k = announcing words body c cells) (hc : ∃ p, c.handler = .primitive p)
    (habreast : Abreast env words source start n (recording words false body c cells) w) (hseq : w.gate.seq = n)
    (hpending : w.gate.pending = none) :
    Phase env words source start r stops (w.perform env o).2 (k (w.perform env o).1) := by
  unfold Words.announcing at hop
  cases hop
  obtain ⟨u, hu, halike, hcounted, hsame, hkeeps, heq⟩ := perform_hook_alike hlisteners hw hactive hpending
    { func := c.handler.procedure, args := .sequence 0 c.args, body := .list body, cell := .list (listAt c.cell) } rfl
  have hinstalled := installed_installFor hu
  obtain ⟨s, hs, hfuture⟩ := hinstalled.step
  rw [heq] at hpaces ⊢
  dsimp only at hpaces ⊢
  rw [← hfuture]
  refine .parked (.waiting hc (habreast.alike (halike.trans hinstalled.alike)) hs ?_ ?_ hinstalled.pending
    (fun o ho => hinstalled.released o (hfuture ▸ ho)) fun o ho => ?_)
  · rw [hinstalled.seq, hcounted, hseq]
  · rw [← hcurrent, ← hsame, hinstalled.steps, hcounted, hseq]
  · obtain hstops | hbefore | hvalue := hpaces _ s hs o ho
    · exact .inl hstops
    · have hnew := hinstalled.new
      rw [← hfuture, hkeeps.outcome? hbefore] at hnew
      cases hnew
    · exact .inr hvalue

/-- A word is called: it does what it does without call boundaries, and fails as it does there. -/
theorem phase_invoked (hwords : words.IsPlain) {o : Op} {k : o.Reply → Routine (Except FaultId Value)}
    (hop : Routine.op o k = invoking words true body c cells) (hc : ∃ p, c.handler = .primitive p)
    (habreast : Abreast env words source start n (invoking words false body c cells) w) (hseq : w.gate.seq = n)
    (hpending : w.gate.pending = none) :
    Phase env words source start r stops (w.perform env o).2 (k (w.perform env o).1) := by
  unfold Words.invoking at hop
  cases hop
  obtain ⟨u, hreaches, halike⟩ := habreast
  obtain ⟨word, handler, cell, args, missing⟩ := c
  obtain ⟨p, rfl⟩ := hc
  have hdirect := Routine.Reaches.op hreaches rfl (calls_primitive p args u)
  dsimp only at hdirect ⊢
  obtain ⟨complaint, hordinary, hungated, hgated⟩ | ⟨e, e', hungated, hgated, hcarried⟩ :=
    perform_primitive_cases env halike p args
  · rw [hungated] at hdirect
    rw [hgated]
    exact phase_failed hordinary hdirect (alike_faults halike _ _) (Faults.get?_add _ _) (Faults.get?_add _ _) hpending
  · rw [hungated] at hdirect
    rw [hgated]
    obtain ⟨_, _, _, _, heq⟩ := carryOut_frame w e'
    have hgate := congrArg World.gate heq
    exact phase_remaining hwords nofun ⟨_, hdirect, hcarried⟩ ((congrArg Gate.seq hgate).trans hseq)
      ((congrArg Gate.pending hgate).trans hpending)

/-- The next operation of the program: what it does to the state it does without call boundaries too. -/
theorem Phase.op (hlisteners : env.GoesBeside) (hwords : words.IsPlain)
    (hw : w.Sound) (hactive : w.session.isActive = true) (hcurrent : w.session.current = r) {o : Op}
    (hpaces : Paces stops w (w.perform env o).2) {k : o.Reply → Routine (Except FaultId Value)}
    (h : Phase env words source start r stops w (.op o k)) :
    Phase env words source start r stops (w.perform env o).2 (k (w.perform env o).1) := by
  generalize hop : Routine.op o k = rest at h
  cases h with
  | parked | done => cases hop
  | begun hfresh halike hseq hpending =>
    rw [execute, run_evaluate] at hop
    cases hop
    have habreast := (abreast_begun hfresh halike env words source).alike (v := (w.newBody (Text.words source)).2)
      ⟨rfl, rfl, rfl, rfl, rfl⟩
    exact phase_remaining hwords nofun habreast hseq hpending
  | announcing hc habreast hseq hpending =>
    exact phase_announced hlisteners hw hactive hcurrent hpaces hop hc habreast hseq hpending
  | @recording n body c cells hc habreast hseq hpending =>
    unfold Words.recording at hop
    cases hop
    obtain ⟨u, hreaches, halike⟩ := habreast
    have hrecorded : World.Alike (u.perform env (.recordCall c.word c.args)).2
      (w.perform env (.recordCall c.word c.args)).2 :=
      ⟨congrArg (·.push (c.word, c.args)) halike.calls, halike.turtle, halike.accepts, halike.printed, halike.lines⟩
    exact .invoking hc ⟨_, hreaches.recordCall, hrecorded⟩ hseq hpending
  | invoking hc habreast hseq hpending => exact phase_invoked hwords hop hc habreast hseq hpending
  | raising hordinary habreast hpending =>
    cases hop
    obtain ⟨u, hreaches, halike⟩ := habreast
    exact phase_failed hordinary (hreaches.op rfl rfl) (alike_faults halike _ _) (Faults.get?_add _ _) (Faults.get?_add _ _)
      hpending

end SteppedLogo.World
