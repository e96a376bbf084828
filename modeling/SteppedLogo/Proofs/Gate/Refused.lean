import SteppedLogo.Proofs.Gate.Delivery
import SteppedLogo.Proofs.World.Move

namespace SteppedLogo

open World

namespace World

variable {env : Env} {v w : World} {call : Call} {fault : FaultId}

/-- The gate, the renderer and the views are as they were. -/
structure Unaffected (w v : World) : Prop where
  gate : v.gate = w.gate
  trace : v.trace = w.trace
  hostView : v.hostView = w.hostView

/-- What comes of a call boundary that fails to start: where a step is pending nothing but the fault, else the boundary
has been counted and shown before its arguments turn out to be none. -/
structure Refused (w : World) (call : Call) (v : World) : Prop where
  pended : w.gate.pending.isSome = true → ∃ faults, v = { w with faults }
  counted : w.gate.pending = none → v.gate = { w.gate with seq := w.gate.seq + 1 } ∧
    v.trace = (w.showCall call).trace ∧ v.hostView = w.hostView ∧ ∃ c, call.args.items = .error c

/-- A call boundary that fails to start leaves no trace exactly where it fails because a step is pending. -/
theorem Refused.unaffected_iff (h : w.Refused call v) : w.Unaffected v ↔ w.gate.pending.isSome = true := by
  constructor
  · intro hunaffected
    cases hpending : w.gate.pending with
    | some id => rfl
    | none =>
      have hcounted := congrArg Gate.seq (h.counted hpending).1
      rw [hunaffected.gate] at hcounted
      exact absurd hcounted (Nat.ne_of_lt (Nat.lt_succ_self _))
  · intro hpending
    obtain ⟨faults, rfl⟩ := h.pended hpending
    exact ⟨rfl, rfl, rfl⟩

/-- What a call shows does not depend on the gate. -/
theorem showCall_modifyGate_trace (w : World) (change : Gate → Gate) (call : Call) :
    ((w.modifyGate change).showCall call).trace = (w.showCall call).trace := by
  unfold showCall
  split
  · rfl
  · rfl
  · dsimp only
    split <;> split <;> rfl

theorem showCall_hostView (w : World) (call : Call) : (w.showCall call).hostView = w.hostView := by
  unfold showCall
  split
  · rfl
  · rfl
  · dsimp only
    split <;> rfl

/-- A call boundary that fails to start because a step is pending, or there are no arguments: nobody is told of it. -/
theorem refused_announceStep {notify : Notify}
    (hreason : w.gate.pending.isSome = true ∨ ∃ c, call.args.items = .error c)
    (h : w.announceStep notify call = (.error fault, v)) : w.Refused call v := by
  unfold announceStep at h
  cases hpending : w.gate.pending with
  | some id =>
    rw [hpending] at h
    cases h
    exact ⟨fun _ => ⟨_, rfl⟩, fun hnone => by cases hpending.symm.trans hnone⟩
  | none =>
    rw [hpending] at h hreason
    obtain hreason | ⟨c, hargs⟩ := hreason
    · cases hreason
    · rw [hargs] at h
      cases h
      exact ⟨fun hsome => (by rw [hpending] at hsome; cases hsome),
        fun _ => ⟨showCall_gate _ call, showCall_modifyGate_trace w _ call, showCall_hostView _ call, c, hargs⟩⟩

/-- The announcement of a step fails where a step is pending, where there are no arguments, and where a listener stops
it. -/
theorem announceNoted_isError_iff {level : Nat} {hear : Hear} (hhear : ∀ event, Hears level (hear event)) (call : Call)
    (w : World) : (∃ fault v, (w.announceNoted level hear call).1 = (.error fault, v)) ↔
      w.gate.pending.isSome = true ∨ (∃ c, call.args.items = .error c) ∨
        ∃ kind, .stopped level kind ∈ (w.announceNoted level hear call).2 := by
  unfold announceNoted
  cases hpending : w.gate.pending with
  | some id => exact ⟨fun _ => .inl rfl, fun _ => ⟨_, _, rfl⟩⟩
  | none =>
    dsimp only
    cases hargs : call.args.items with
    | error c => exact ⟨fun _ => .inr (.inl ⟨c, rfl⟩), fun _ => ⟨_, _, rfl⟩⟩
    | ok args =>
      dsimp only
      generalize (w.modifyGate fun g => { g with seq := g.seq + 1 }).showCall call = u
      generalize (⟨u.gate.seq, callName call.func, args, call.cell⟩ : StepEvent) = event
      obtain ⟨-, hwithin, -⟩ := tellNoted_told (hhear event) event u.gate.listeners u
      generalize tellNoted level (hear event) event u.gate.listeners u = heard at hwithin
      match heard with
      | ((.ok (), v), during) =>
        constructor
        · rintro ⟨fault, v, h⟩
          cases h
        · rintro (h | ⟨c, h⟩ | ⟨kind, hmem⟩)
          · cases h
          · cases h
          · -- what is noted while the listeners are told comes from a lower level
            obtain h | hmem := List.mem_cons.1 hmem
            · cases h
            · exact absurd (hwithin _ hmem) (Nat.lt_irrefl level)
      | ((.error fault, v), during) =>
        exact ⟨fun _ => .inr (.inr ⟨v.faults.kindOf fault, by simp⟩), fun _ => ⟨_, _, rfl⟩⟩

/-- Of a call boundary that is refused for what it is nobody is told. -/
theorem announceNoted_of_refused {level : Nat} {hear : Hear}
    (hreason : w.gate.pending.isSome = true ∨ ∃ c, call.args.items = .error c) :
    (w.announceNoted level hear call).2 = if w.gate.pending.isSome then [] else [.lost] := by
  unfold announceNoted
  cases hpending : w.gate.pending with
  | some id => rfl
  | none =>
    rw [hpending] at hreason
    obtain hreason | ⟨c, hargs⟩ := hreason
    · cases hreason
    · rw [hargs]
      rfl

/-- A step fails exactly where its announcement does, and then nothing is set up. -/
theorem installNoted_of_error {level : Nat} {install : World → Step × World}
    {announced : (Except FaultId Unit × World) × List Notice} :
    ((installNoted level install announced).1 = (.error fault, v) ↔ announced.1 = (.error fault, v)) ∧
      (announced.1 = (.error fault, v) → (installNoted level install announced).2 = announced.2) := by
  match announced with
  | ((.error e, u), log) => exact ⟨⟨fun h => by cases h; rfl, fun h => by cases h; rfl⟩, fun _ => rfl⟩
  | ((.ok (), u), log) => exact ⟨⟨fun h => (by cases h), fun h => by cases h⟩, fun h => by cases h⟩

theorem mem_stopped_installNoted {level l : Nat} {install : World → Step × World}
    {announced : (Except FaultId Unit × World) × List Notice} {kind : FaultKind} :
    .stopped l kind ∈ (installNoted level install announced).2 ↔ .stopped l kind ∈ announced.2 := by
  match announced with
  | ((.error e, u), log) => rfl
  | ((.ok (), u), log) => simp [installNoted]

/-- The call that is announced at a call boundary of the current run. -/
def hooked (w : World) (call : Call) : Call := if w.session.traceOn then call else { call with body := .none }

/-- When a call boundary fails to start, and what comes of that. -/
theorem refused_boundary {level : Nat} {hear : Hear} (hhear : ∀ event, Hears level (hear event))
    (install : World → Step × World) (call : Call) (w : World) :
    ((∃ fault v, (installNoted level install (w.announceNoted level hear call)).1 = (.error fault, v)) ↔
      w.gate.pending.isSome = true ∨ (∃ c, call.args.items = .error c) ∨
        ∃ kind, .stopped level kind ∈ (installNoted level install (w.announceNoted level hear call)).2) ∧
    ∀ fault v, (installNoted level install (w.announceNoted level hear call)).1 = (.error fault, v) →
      w.gate.pending.isSome = true ∨ (∃ c, call.args.items = .error c) →
      w.Refused call v ∧ (installNoted level install (w.announceNoted level hear call)).2 =
        if w.gate.pending.isSome then [] else [.lost] := by
  have hnotify : (w.announceNoted level hear call).1 = w.announceStep _ call :=
    announceNoted_fst (fun _ _ => rfl) call w
  constructor
  · simp only [mem_stopped_installNoted, installNoted_of_error.1]
    exact announceNoted_isError_iff hhear call w
  · intro fault v h hreason
    have hannounced := installNoted_of_error.1.1 h
    exact ⟨refused_announceStep hreason (hnotify.symm.trans hannounced),
      (installNoted_of_error.2 hannounced).trans (announceNoted_of_refused hreason)⟩

end World

namespace Scene

variable {env : Env} {P : Op → Prop} {s t : Scene}

/-- `step`, and likewise `hook`, fails exactly where a step is pending, where its arguments cannot be told one by one, and
where a listener lets out what is no error. Of the first two, the world is unaffected exactly if a step was pending;
otherwise the call is counted and shown as lost, and nobody is told. So over any steps of the system an event bears the
number after those of the events and lost calls since the count began. -/
theorem refused_traceless_iff_pending (h : Steps env P s t) :
    (∀ w call, ((∃ fault v, w.perform env (.step call) = (.error fault, v)) ↔
        w.gate.pending.isSome = true ∨ (∃ c, call.args.items = .error c) ∨
          ∃ kind, .stopped nesting kind ∈ (performNoted env (.step call) w).2) ∧
      ∀ fault v, w.perform env (.step call) = (.error fault, v) →
        w.gate.pending.isSome = true ∨ (∃ c, call.args.items = .error c) → w.Refused call v ∧
        (w.Unaffected v ↔ w.gate.pending.isSome = true) ∧
        (performNoted env (.step call) w).2 = if w.gate.pending.isSome then [] else [.lost]) ∧
    (∀ w call, ((∃ fault v, w.perform env (.hook call) = (.error fault, v)) ↔
        w.gate.pending.isSome = true ∨ (∃ c, call.args.items = .error c) ∨
          ∃ kind, .stopped nesting kind ∈ (performNoted env (.hook call) w).2) ∧
      ∀ fault v, w.perform env (.hook call) = (.error fault, v) →
        w.gate.pending.isSome = true ∨ (∃ c, call.args.items = .error c) → w.Refused (w.hooked call) v ∧
        (w.Unaffected v ↔ w.gate.pending.isSome = true) ∧
        (performNoted env (.hook call) w).2 = if w.gate.pending.isSome then [] else [.lost]) ∧
    (∃ log, StepsNoted env P s log t) ∧ ∀ log, StepsNoted env P s log t → ∀ front run level event back,
      log = front ++ .reset :: run ++ .begins level event :: back → .reset ∉ run →
        event.seq = run.countP Notice.isBegins + run.countP Notice.isLost + 1 := by
  have hhear (event : StepEvent) : Hears nesting (hearNoted env (performNotedWithin env 199) event) :=
    hears_noted (accounts_performNotedWithin env 199) event
  refine ⟨fun w call => ?_, fun w call => ?_, steps_iff_noted.1 h,
    fun log hnoted front run level event back hlog hreset => ?_⟩
  · have hboundary := refused_boundary hhear installStep call w
    simp only [← performNoted_fst]
    refine ⟨hboundary.1, fun fault v hrefused hreason => ?_⟩
    obtain ⟨hleaves, hnotices⟩ := hboundary.2 fault v hrefused hreason
    exact ⟨hleaves, hleaves.unaffected_iff, hnotices⟩
  · have hboundary := refused_boundary hhear (installFor w.session.current) (w.hooked call) w
    have hargs : (w.hooked call).args = call.args := by
      unfold hooked
      split <;> rfl
    rw [hargs] at hboundary
    simp only [← performNoted_fst]
    refine ⟨hboundary.1, fun fault v hrefused hreason => ?_⟩
    obtain ⟨hleaves, hnotices⟩ := hboundary.2 fault v hrefused hreason
    exact ⟨hleaves, hleaves.unaffected_iff, hnotices⟩
  · have hnumber := (hlog ▸ hnoted.accounts.admits).fits.1
    rw [hnumber, Ledger.reads_append, Ledger.reads]
    change ((({ (s.world.ledger.reads front) with count := 0 } : Ledger).reads run).count) + 1 = _
    rw [Ledger.reads_count _ hreset, Nat.zero_add]

/-- A gate that has begun to count, with a listener that does nothing but listen. -/
def attentive : World := (World.perform unrulyEnv .resetGate (World.perform unrulyEnv (.addListener "b") {}).2).2

/-- A step without arguments has failed to start. -/
def lossy : World := (attentive.perform unrulyEnv (.step { func := .text "lost", args := .none })).2

def lossyNotices : List Notice :=
  let event : StepEvent := ⟨2, "next", [], .none⟩
  [.added "b", .reset, .lost, .begins 200 event, .told 200 "b" event, .created 200 0]

/-- A step whose arguments cannot be told has used up the number one, so the first event that the listener is told has the
number two. -/
theorem lossy_numbered : StepsNoted unrulyEnv (fun _ => True) { world := {} } lossyNotices
      { world := (lossy.perform unrulyEnv (.step { func := .text "next" })).2 } ∧
    (2 : Nat) = [Notice.lost].countP Notice.isBegins + [Notice.lost].countP Notice.isLost + 1 := by
  have hbegin : StepsNoted unrulyEnv (fun _ => True) { world := {} } [.added "b", .reset] { world := attentive } :=
    .tail (.tail .refl (.perform {} (o := .addListener "b") trivial)) (.perform _ (o := .resetGate) trivial)
  have hlost : StepsNoted unrulyEnv (fun _ => True) { world := {} } [.added "b", .reset, .lost] { world := lossy } :=
    hbegin.tail (.perform attentive (o := .step { func := .text "lost", args := .none }) trivial)
  have hnotices : (performNoted unrulyEnv (.step { func := .text "next" }) lossy).2 = lossyNotices.drop 3 := by
    with_unfolding_all rfl
  have hperform : StepNoted unrulyEnv (fun _ => True) { world := lossy }
      (performNoted unrulyEnv (.step { func := .text "next" }) lossy).2
      { world := (lossy.perform unrulyEnv (.step { func := .text "next" })).2 } := .perform lossy trivial
  rw [hnotices] at hperform
  have hsteps : StepsNoted unrulyEnv (fun _ => True) { world := {} } lossyNotices
      { world := (lossy.perform unrulyEnv (.step { func := .text "next" })).2 } := hlost.tail hperform
  obtain ⟨-, -, -, hnumbers⟩ := refused_traceless_iff_pending (steps_iff_noted.2 ⟨_, hsteps⟩)
  refine ⟨hsteps, hnumbers _ hsteps [.added "b"] [.lost] 200 _ _ rfl ?_⟩
  intro hreset
  cases List.mem_singleton.1 hreset

/-- A step that is refused need not leave the world as it was: one whose arguments cannot be told uses up a number. -/
theorem not_unaffected_of_refused : ¬ ∀ (env : Env) (w : World), World.Reachable env (fun _ => True) w →
    ∀ call fault v, w.perform env (.step call) = (.error fault, v) → w.Unaffected v := by
  intro hunaffected
  have hmoves : Moves unrulyEnv (fun _ => True) {} attentive :=
    .tail (.single (.perform {} (o := .addListener "b") trivial)) (.perform _ (o := .resetGate) trivial)
  have hreachable : World.Reachable unrulyEnv (fun _ => True) attentive :=
    ⟨{}, World.fresh_empty, hmoves⟩
  have hsame := (hunaffected unrulyEnv attentive hreachable { func := .text "lost", args := .none } 0 lossy rfl).gate
  have hcounted : (1 : Nat) = 0 := congrArg Gate.seq hsame
  cases hcounted

end Scene

end SteppedLogo
