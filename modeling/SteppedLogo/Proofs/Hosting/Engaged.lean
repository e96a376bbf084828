import SteppedLogo.Proofs.Hosting.Conducts
import SteppedLogo.Proofs.Stream.Records

namespace SteppedLogo

/-- With which status a host goes on behind a run, by how that has ended: it was completed, stopped on purpose, or has
failed with an error. -/
inductive Run.Warrants (faults : Faults) (run : Run) : Exit → Prop
  | completed (hstatus : run.status = .completed) (herror : run.error = none) : Run.Warrants faults run .ok
  | stopped {c : FaultId} {f : Fault} (hstatus : run.status = .failed) (herror : run.error = some c)
    (hget : faults.get? c = some f) (hkind : f.kind = .cancellation) : Run.Warrants faults run .canceled
  | failed {e : FaultId} {f : Fault} (hstatus : run.status = .failed) (herror : run.error = some e)
    (hget : faults.get? e = some f) (hkind : f.kind ≠ .cancellation) : Run.Warrants faults run .error

namespace Run.Warrants

variable {fs gs : Faults} {run : Run} {exit : Exit}

theorem kept (h : run.Warrants fs exit) (hkeeps : fs.Keeps gs) : run.Warrants gs exit := by
  cases h with
  | completed hstatus herror => exact .completed hstatus herror
  | stopped hstatus herror hget hkind =>
    obtain ⟨g, hg, hagrees⟩ := hkeeps _ _ hget
    exact .stopped hstatus herror hg (hagrees.kind.trans hkind)
  | failed hstatus herror hget hkind =>
    obtain ⟨g, hg, hagrees⟩ := hkeeps _ _ hget
    exact .failed hstatus herror hg (hagrees.kind ▸ hkind)

theorem inactive (h : run.Warrants fs exit) : run.status.isActive = false := by
  cases h with
  | completed hstatus => rw [hstatus]; rfl
  | stopped hstatus => rw [hstatus]; rfl
  | failed hstatus => rw [hstatus]; rfl

end Run.Warrants

/-- What a host is engaged for: it may prompt for lines if it `asks`, is to run the `programs`, and `Settles` is to hold
of the programs that it has run, of those that are left, and of its result. Before it there have been the runs `before`. -/
structure Engagement where
  asks : Bool
  programs : List String
  Settles : List (String × Exit) → List String → Except FaultId Value → Prop
  host : JobId
  future : FutureId
  before : List Run

/-- A program that a host has started behind those in `past`, and what the host does once it has heard of the end. -/
structure Errand where
  source : String
  past : List (String × Exit)
  left : List String
  runs : Array Run
  job : JobId
  future : FutureId
  hooked : Bool
  goesOn : Except FaultId Exit → Routine (Except FaultId Value)

namespace Engagement

variable {E : Engagement} {fs gs : Faults} {past : List (String × Exit)} {left : List String} {source : String}
variable {exit : Exit} {runs : Array Run} {run : Run}

/-- The job of the host. -/
def job (E : Engagement) (resume : Except FaultId Value → Routine (Except FaultId Value)) (waiting : Option FutureId)
    (begun : Bool) : Job where
  future := E.future
  resume := resume
  waiting := waiting
  begun := begun

/-- The programs in `past` have been run, each in a run of its own that has ended, and those in `left` have not. -/
structure Chronicle (E : Engagement) (past : List (String × Exit)) (left : List String) (faults : Faults)
    (runs : Array Run) : Prop where
  programs : past.map Prod.fst ++ left = E.programs
  runs : ∃ more, runs.toList = E.before ++ more ∧
    List.Forall₂ (fun run entry => run.source = entry.1 ∧ run.Warrants faults entry.2) more past

namespace Chronicle

theorem kept (h : E.Chronicle past left fs runs) (hkeeps : fs.Keeps gs) : E.Chronicle past left gs runs := by
  obtain ⟨more, hmore, hpast⟩ := h.runs
  exact ⟨h.programs, more, hmore, hpast.imp fun _ _ hrun => ⟨hrun.1, hrun.2.kept hkeeps⟩⟩

/-- One more program has been run. -/
theorem snoc (h : E.Chronicle past (source :: left) fs runs) (hsource : run.source = source)
    (hrun : run.Warrants fs exit) : E.Chronicle (past ++ [(source, exit)]) left fs (runs.push run) := by
  obtain ⟨more, hmore, hpast⟩ := h.runs
  refine ⟨?_, more ++ [run], ?_, List.rel_append hpast (.cons ⟨hsource, hrun⟩ .nil)⟩
  · rw [List.map_append, List.append_assoc]
    exact h.programs
  · rw [Array.toList_push, hmore, List.append_assoc]

/-- The sources of the runs of a host are its programs, as far as it has run them. -/
theorem sources (h : E.Chronicle past left fs runs) : ∃ more : List Run, runs.toList = E.before ++ more ∧
    more.map Run.source = past.map Prod.fst ∧ more.map Run.source <+: E.programs := by
  obtain ⟨more, hmore, hpast⟩ := h.runs
  have hsources : more.map Run.source = past.map Prod.fst :=
    List.forall₂_eq_eq_eq ▸ List.forall₂_map_left_iff.2 (List.forall₂_map_right_iff.2 (hpast.imp fun _ _ hrun => hrun.1))
  exact ⟨more, hmore, hsources, hsources ▸ ⟨left, h.programs⟩⟩

end Chronicle

end Engagement

namespace World

variable {env : Env} {asks : Bool} {u v w : World}

/-- A host that does not ask has written no prompt. -/
def Unasked (asks : Bool) (w : World) : Prop := asks = false → .prompt ∉ w.output.records

theorem Unasked.same (h : w.Unasked asks) (houtput : v.output = w.output) : v.Unasked asks := by
  intro hasks
  rw [houtput]
  exact h hasks

theorem Unasked.write (h : w.Unasked asks) {record : Record} (hrecord : asks = false → record ≠ .prompt) :
    (w.write record).Unasked asks := by
  intro hasks hmem
  obtain hbefore | hsame := Array.mem_push.1 hmem
  · exact h hasks hbefore
  · exact hrecord hasks hsame.symm

theorem Unasked.print (h : w.Unasked asks) (category text : String) : (w.print category text).Unasked asks := by
  unfold World.print
  dsimp only
  split
  · have hcounted : Unasked asks { w with output := { w.output with calls := w.output.calls + 1 } } := h
    exact hcounted.write nofun
  · exact h

theorem Unasked.showTrace (h : w.Unasked asks) (event : StepEvent) : (w.showTrace event).Unasked asks := by
  unfold World.showTrace
  dsimp only
  split
  · exact h.write nofun
  · exact h

theorem Unasked.carryOut (h : w.Unasked asks) (e : Effect) : (w.carryOut e).Unasked asks := by
  unfold World.carryOut
  dsimp only
  split
  · exact Unasked.print (w := { w with turtle := e.turtle, fresh := w.fresh + 2 }) h _ _
  · exact h

/-- Nothing is scheduled or settled, and no prompt is written by a host that does not ask. -/
structure Idles (asks : Bool) (w v : World) : Prop where
  aside : w.Aside v
  unasked : w.Unasked asks → v.Unasked asks

theorem Idles.refl (w : World) : w.Idles asks w := ⟨.refl w, id⟩

theorem Idles.trans (huv : u.Idles asks v) (hvw : v.Idles asks w) : u.Idles asks w :=
  ⟨huv.aside.trans hvw.aside, hvw.unasked ∘ huv.unasked⟩

theorem Aside.idles (h : w.Aside v) (houtput : v.output = w.output) : w.Idles asks v :=
  ⟨h, fun hw => hw.same houtput⟩

/-- What a host does between its programs. -/
theorem idles_perform (env : Env) {o : Op} (ho : o.IsHosting asks) (w : World) : w.Idles asks (w.perform env o).2 := by
  have haside (h : o.IsAside) : w.Aside (w.performWith env (notify env) o).2 := performWith_aside (notify env) h w
  cases o with
  | setPacing seconds =>
    refine (haside trivial).idles ?_
    change (w.setPacing seconds).2.output = w.output
    unfold setPacing
    split <;> rfl
  | clearView =>
    refine (haside trivial).idles ?_
    change (w.modifyShownView DebugView.clear).output = w.output
    unfold modifyShownView
    split <;> rfl
  | print category text => exact ⟨haside trivial, fun h => h.print category text⟩
  | write record => exact ⟨haside trivial, fun h => h.write ho⟩
  | setTrace | describe | raise | setStatus | pacing | turtle => exact (haside trivial).idles rfl
  | _ => exact ho.elim

/-- The console is the only one that is told of a step. -/
theorem idles_notify (hreact : env.react = Launch.react) (event : StepEvent) (w : World) :
    w.Idles asks (notify env event w).2 := by
  have hshows (name : String) : (env.react name event).run.All fun o => ∃ event, o = .showTrace event := by
    rw [hreact]
    by_cases hname : name = Launch.traceListener
    · have hshows : Launch.react name event = Reaction.perform (.showTrace event) := if_pos hname
      rw [hshows]
      exact ⟨⟨event, rfl⟩, fun _ => trivial⟩
    · have hnothing : Launch.react name event = pure () := if_neg hname
      rw [hnothing]
      trivial
  refine notifyWith_keeps (fun o ho u hu => hu.trans ?_)
    (fun u level logger message fault hu => hu.trans ((aside_addLog ..).idles rfl)) hshows (.refl w)
  obtain ⟨event, rfl⟩ := ho
  have hshow : (Op.showTrace event).IsAside := trivial
  exact ⟨@performWith_aside env _ _ hshow u, fun h => h.showTrace event⟩

/-- A handler of interrupts is registered, if there can be one. -/
theorem idles_hookInterrupt (env : Env) (asks : Bool) (w : World) :
    ∃ hooked v, Host.hookInterrupt.run env w = (.finished hooked, v) ∧ w.Idles asks v := by
  obtain ⟨hooked, v, hrun, hv⟩ := run_hookInterrupt env w
  have haside : w.Aside (Host.hookInterrupt.run env w).2 := by
    refine Routine.run_keeps (P := Op.IsAside) (I := w.Aside) (fun o ho u hu => hu.trans (performWith_aside _ ho u))
      (fun _ _ haside hu => hu.trans haside) ?_ (.refl w)
    exact Routine.all_hookInterrupt (fun _ => trivial) (fun _ => trivial) fun _ _ _ _ => trivial
  rw [hrun] at haside
  exact ⟨hooked, v, hrun, haside.idles (by rw [hv])⟩

end World

namespace Host

variable {env : Env} {asks : Bool} {faults : Faults} {o : Outcome} {exit : Exit} {w : World}

/-- What comes of the task of a run, and the status with which its host goes on. -/
inductive Heeds (faults : Faults) : Outcome → Exit → Prop
  | completed (v : Value) : Heeds faults (.value v) .ok
  | stopped {c : FaultId} {f : Fault} (hget : faults.get? c = some f) (hkind : f.kind = .cancellation) :
    Heeds faults (.fault c) .canceled
  | failed {e inner : FaultId} {f : Fault} (hget : faults.get? e = some f) (hkind : f.kind = .program)
    (hinner : f.inner = some inner) : Heeds faults (.fault e) .error

/-- A host that receives what has come of its run writes a line for an error, and nothing else. -/
theorem Heeds.verdict (env : Env) (asks : Bool) (h : Heeds faults o exit) : ∃ received,
    (∀ w : World, w.receive o = (received, w)) ∧ ∀ w : World, w.faults = faults → ∃ v,
      (verdict received).run env w = (.finished (.ok exit), v) ∧ w.Idles asks v := by
  cases h with
  | completed x => exact ⟨.ok x, fun _ => rfl, fun w _ => ⟨w, rfl, .refl w⟩⟩
  | @stopped c f hget hkind =>
    refine ⟨.error c, fun _ => rfl, fun w hfaults => ?_⟩
    subst hfaults
    obtain ⟨kind, args, reason, inner, cause, context⟩ := f
    cases hkind
    exact ⟨_, World.run_describe hget _,
      World.idles_perform env (o := .print "error" ("canceled: " ++ reason.display)) trivial w⟩
  | @failed e inner f hget hkind hinner =>
    refine ⟨.error e, fun _ => rfl, fun w hfaults => ?_⟩
    subst hfaults
    obtain ⟨kind, args, reason, inner, cause, context⟩ := f
    cases hkind
    cases hinner
    let why : Fault := (w.faults.get? inner).getD { kind := .general }
    let logged := w.addLog .debug logger "program failed" (some (w.faults.summaryOf inner))
    have hlogged : w.Idles asks logged := (World.aside_addLog ..).idles rfl
    exact ⟨_, World.run_describe hget _,
      hlogged.trans (World.idles_perform env (o := .print "error" why.message) trivial logged)⟩

/-- A host that has heard what has come of its run removes its handler, and goes on with the status. -/
theorem Heeds.reports (env : Env) (asks : Bool) (h : Heeds faults o exit) (hooked : Bool) : ∃ received,
    (∀ w : World, w.receive o = (received, w)) ∧ ∀ w : World, w.faults = faults → ∃ v,
      ((Host.verdict received).bind (leave hooked)).run env w = (.finished (.ok exit), v) ∧ w.Idles asks v := by
  obtain ⟨received, hreceives, hverdict⟩ := h.verdict env asks
  refine ⟨received, hreceives, fun w hfaults => ?_⟩
  obtain ⟨u, hreports, hu⟩ := hverdict w hfaults
  obtain ⟨v, hleaves, hv⟩ := World.run_leave env hooked (.ok exit) u
  refine ⟨v, (Routine.run_bind_of_finished hreports _).trans hleaves, hu.trans ?_⟩
  rw [hv]
  exact World.Aside.idles ⟨rfl, rfl, rfl, rfl, rfl, rfl, rfl, rfl, .refl _⟩ rfl

end Host

end SteppedLogo
