import SteppedLogo.Proofs.Fault.Search
import SteppedLogo.Proofs.Program.Direct
import SteppedLogo.Proofs.World.Spares

namespace SteppedLogo

variable {env : Env} {v w : World}

namespace Routine

variable {α : Type} {F : World → α → Prop} {o : Op} {k : o.Reply → Routine α} {a : α}

/-- A routine that neither waits nor makes call boundaries. -/
def Straight : Routine α → Prop
  | done _ => True
  | op o k => o.IsQuiet ∧ ∀ reply, (k reply).Straight
  | await .. => False

/-- A routine goes straight to its end, and `F` holds of what it comes to there. -/
structure Heads (env : Env) (F : World → α → Prop) (w : World) (r : Routine α) : Prop where
  straight : r.Straight
  ends : ∃ a v, r.run env w = (.finished a, v) ∧ F v a

theorem Heads.performs (h : (op o k).Heads env F w) : (k (w.perform env o).1).Heads env F (w.perform env o).2 :=
  ⟨h.straight.2 _, h.ends⟩

theorem heads_done : (done a).Heads env F w ↔ F w a := by
  constructor
  · rintro ⟨-, b, v, hrun, hF⟩
    cases hrun
    exact hF
  · intro hF
    exact ⟨trivial, a, w, rfl, hF⟩

theorem Heads.imp {G : World → α → Prop} {r : Routine α} (h : r.Heads env F w) (himp : ∀ a v, F v a → G v a) :
    r.Heads env G w := by
  obtain ⟨hstraight, a, v, hrun, hF⟩ := h
  exact ⟨hstraight, a, v, hrun, himp a v hF⟩

theorem bind_done (r : Routine α) : r.bind done = r := by
  induction r with
  | done a => rfl
  | op o k ih => exact congrArg (op o) (funext ih)
  | await future k ih => exact congrArg (await future) (funext ih)

end Routine

namespace Faults

variable {fs : Faults} {id e c : FaultId} {f g : Fault}

/-- A fault is raised from another one, which is being handled. -/
def addFrom (fs : Faults) (f : Fault) (handled : FaultId) : Faults :=
  ((fs.add f).2.setCause (fs.add f).1 (some handled)).raiseWhile handled (fs.add f).1

theorem get?_setContext (fs : Faults) (id : FaultId) (context : Option FaultId) (c : FaultId) :
    (fs.setContext id context).get? c = if id = c then (fs.get? c).map ({ · with context }) else fs.get? c := by
  simp only [get?, setContext, modify, Array.getElem?_modify]

theorem cause_setContext (fs : Faults) (id : FaultId) (context : Option FaultId) (c : FaultId) :
    ((fs.setContext id context).get? c).map Fault.cause = (fs.get? c).map Fault.cause := by
  rw [get?_setContext]
  split
  · cases fs.get? c <;> rfl
  · rfl

/-- That a fault is raised while another one is handled does not change what it was raised from. -/
theorem cause_raiseWhile (fs : Faults) (handled id c : FaultId) :
    ((fs.raiseWhile handled id).get? c).map Fault.cause = (fs.get? c).map Fault.cause := by
  have hcut (fuel : Nat) (at_ : FaultId) (fs : Faults) :
      ((fs.uncontext id fuel at_).get? c).map Fault.cause = (fs.get? c).map Fault.cause := by
    induction fuel generalizing at_ with
    | zero => rfl
    | succ fuel ih =>
      unfold uncontext
      split
      · rfl
      · split
        · exact cause_setContext fs at_ none c
        · exact ih _
  unfold raiseWhile
  split
  · rfl
  · rw [cause_setContext, hcut]

/-- Where nothing was being handled when the handled fault was raised, no link is cut. -/
theorem get?_raiseWhile_handled (hid : fs.get? id = some f) (hcontext : f.context = none) (hne : id ≠ e) :
    (fs.raiseWhile id e).get? id = some f := by
  have hcut : fs.uncontext e fs.all.size id = fs := by
    cases fs.all.size with
    | zero => rfl
    | succ fuel => simp only [uncontext, hid, Option.bind_some, hcontext]
  rw [raiseWhile, if_neg hne, hcut, get?_setContext, if_neg hne.symm, hid]

end Faults

namespace Words

/-- What a source text is run as: with `wrapping`, errors are raised again as those of the language. -/
def interpret (wrapping : Bool) (words : Words) (source : String) : Work Value :=
  if wrapping then executeWrapping words source else execute words source

/-- What is left of a program once its words have come to their end. -/
def closing (wrapping : Bool) : Except FaultId Value → Routine (Except FaultId Value)
  | .ok v => .done (.ok v)
  | .error id =>
    if wrapping then
      .op (.describe id) fun fault =>
        if fault.kind.isError then
          .op (.raise (.plain ⟨.logo, [.text ("stopped: " ++ fault.message)]⟩)) fun wrapped =>
            .op (.setCause wrapped id) fun _ => .op (.raiseWhile id wrapped) fun _ => .done (.error wrapped)
        else .done (.error id)
    else .done (.error id)

/-- What a program ends with once its words have raised an error, but for its links. -/
def raisedAs (wrapping : Bool) (f : Fault) : Fault :=
  if wrapping then .ofComplaint ⟨.logo, [.text ("stopped: " ++ f.message)]⟩ else f

theorem run_interpret (wrapping : Bool) (words : Words) (source : String) :
    (interpret wrapping words source).run = (execute words source).run.bind (closing wrapping) := by
  cases wrapping with
  | false =>
    have hclosing : closing false = Routine.done := by
      funext result
      cases result <;> rfl
    rw [hclosing, Routine.bind_done]
    rfl
  | true =>
    refine congrArg (Routine.bind _) (funext fun result => ?_)
    cases result with
    | ok v => rfl
    | error id =>
      refine congrArg (Routine.op _) (funext fun fault => ?_)
      have hsplit (h : Bool) : (if h then
          (do
            let wrapped ← Routine.perform (.raise (.plain ⟨.logo, [.text ("stopped: " ++ Fault.message fault)]⟩))
            Routine.perform (.setCause wrapped id)
            Routine.perform (.raiseWhile id wrapped)
            return .error wrapped : Routine (Except FaultId Value))
          else (return .error id)) = if h then
            .op (.raise (.plain ⟨.logo, [.text ("stopped: " ++ Fault.message fault)]⟩)) fun wrapped =>
              .op (.setCause wrapped id) fun _ => .op (.raiseWhile id wrapped) fun _ => .done (.error wrapped)
          else .done (.error id) := by
        cases h <;> rfl
      exact hsplit _

/-- What closes a program performs nothing but what it takes to raise an error again. -/
theorem all_closing {P : Op → Prop} (hdescribe : ∀ id, P (.describe id)) (hraise : ∀ spec, P (.raise spec))
    (hcause : ∀ id cause, P (.setCause id cause)) (hwhile : ∀ handled id, P (.raiseWhile handled id)) (wrapping : Bool)
    (result : Except FaultId Value) : (closing wrapping result).All P := by
  cases result with
  | ok v => trivial
  | error id =>
    cases wrapping with
    | false => trivial
    | true =>
      refine ⟨hdescribe id, fun fault => ?_⟩
      change (if fault.kind.isError then _ else _ : Routine (Except FaultId Value)).All P
      split
      · exact ⟨hraise _, fun _ => ⟨hcause _ _, fun _ => ⟨hwhile _ _, fun _ => trivial⟩⟩⟩
      · trivial

/-- A program whose words have raised the error `id` ends with an error as which that one is raised. A deliberate
stop is found behind it if `id` is one, and none where nothing is behind `id`. -/
structure Closes (wrapping : Bool) (w : World) (id : FaultId) (f : Fault) (v : World) (e : FaultId) : Prop where
  alike : w.Alike v
  gate : v.gate = w.gate
  faults : w.faults.Keeps v.faults
  raised : ∃ g, v.faults.get? e = some g ∧ (raisedAs wrapping f).Agrees g
  stopped : f.kind = .cancellation → v.faults.findCancellation e = some id
  failed : f.kind ≠ .cancellation → f.next? = none → v.faults.findCancellation e = none

theorem raisedAs_isError {f : Fault} (herror : f.kind.isError = true) (wrapping : Bool) :
    (raisedAs wrapping f).kind.isError = true := by
  cases wrapping with
  | false => exact herror
  | true => rfl

/-- The links that the error gets as which another one is raised again. -/
theorem closes_wrapped {id : FaultId} {f : Fault} (hid : w.faults.get? id = some f) :
    Closes true w id f { w with faults := w.faults.addFrom (raisedAs true f) id } (w.faults.add (raisedAs true f)).1 := by
  have hne : (w.faults.add (raisedAs true f)).1 ≠ id := by
    rintro rfl
    rw [Faults.get?, Faults.add, Array.getElem?_size] at hid
    cases hid
  have hadded := Faults.get?_add w.faults (raisedAs true f)
  have hbefore := Faults.get?_add_of_some hid (raisedAs true f)
  have hkeepsAdd := Faults.keeps_add w.faults (raisedAs true f)
  unfold Faults.addFrom
  generalize (w.faults.add (raisedAs true f)).1 = e at hne hadded ⊢
  generalize (w.faults.add (raisedAs true f)).2 = added at hadded hbefore hkeepsAdd ⊢
  have hlinked : (added.setCause e (some id)).get? e = some { raisedAs true f with cause := some id } := by
    rw [Faults.get?_setCause, if_pos rfl, hadded]
    rfl
  have hkept : (added.setCause e (some id)).get? id = some f := by
    rw [Faults.get?_setCause, if_neg hne, hbefore]
  have hkeeps := Faults.keeps_raiseWhile (added.setCause e (some id)) id e
  obtain ⟨g, hg, hagrees⟩ := hkeeps e _ hlinked
  have hcause : g.cause = some id := by
    have hsame := Faults.cause_raiseWhile (added.setCause e (some id)) id e e
    rw [hg, hlinked] at hsame
    exact Option.some.inj hsame
  have hgoes : ((added.setCause e (some id)).raiseWhile id e).Goes e id := by
    refine ⟨g, hg, ?_, ?_⟩
    · rw [hagrees.kind]
      intro hkind
      cases hkind
    · rw [Fault.next?, hcause, Option.some_or]
  refine ⟨⟨rfl, rfl, rfl, rfl, rfl⟩, rfl, (hkeepsAdd.trans (Faults.keeps_setCause added e (some id))).trans hkeeps,
    ⟨g, hg, ?_⟩, ?_, ?_⟩
  · exact ⟨hagrees.kind, hagrees.args, hagrees.reason, hagrees.inner⟩
  · intro hkind
    obtain ⟨h, hh, hsame⟩ := hkeeps id f hkept
    exact Faults.findCancellation_eq_some_iff.2 ⟨.single hgoes, h, hh, hsame.kind.trans hkind⟩
  · intro hkind hnext
    have hcontext : f.context = none := (Option.or_eq_none_iff.1 hnext).2
    have hsame := Faults.get?_raiseWhile_handled hkept hcontext hne.symm
    refine Faults.findCancellation_eq_none_iff.2 fun c hvisits hstop => ?_
    obtain ⟨h, hh, hstop⟩ := hstop
    obtain rfl | ⟨b, hb, hrest⟩ := Relation.ReflTransGen.cases_head hvisits
    · rw [hg] at hh
      cases hh
      rw [hagrees.kind] at hstop
      cases hstop
    · obtain rfl := hb.unique hgoes
      obtain rfl := Faults.Visits.eq_of_end hrest fun b hgoes => (by
        obtain ⟨g, hget, -, hfollows⟩ := hgoes
        rw [hsame] at hget
        cases hget
        rw [hnext] at hfollows
        cases hfollows)
      rw [hsame] at hh
      cases hh
      exact hkind hstop

theorem heads_closing (env : Env) {id : FaultId} {f : Fault} (hid : w.faults.get? id = some f)
    (herror : f.kind.isError = true)
    (wrapping : Bool) :
    (closing wrapping (.error id)).Heads env (fun v result => ∃ e, result = .error e ∧ Closes wrapping w id f v e) w := by
  cases wrapping with
  | false =>
    refine Routine.heads_done.2 ⟨id, rfl, .refl w, rfl, .refl _, ⟨f, hid, .refl f⟩, ?_, ?_⟩
    · exact Faults.findCancellation_self hid
    · exact Faults.findCancellation_none hid
  | true =>
    refine ⟨⟨trivial, fun fault => ?_⟩, ?_⟩
    · change (if fault.kind.isError then _ else _ : Routine (Except FaultId Value)).Straight
      split
      · exact ⟨trivial, fun _ => ⟨trivial, fun _ => ⟨trivial, fun _ => trivial⟩⟩⟩
      · trivial
    · refine ⟨_, _, ?_, _, rfl, closes_wrapped hid⟩
      change (if ((w.faults.get? id).getD _).kind.isError then _ else _ : Routine (Except FaultId Value)).run env w = _
      rw [hid, Option.getD_some, if_pos herror]
      rfl

end Words

end SteppedLogo
