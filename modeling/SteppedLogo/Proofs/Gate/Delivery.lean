import SteppedLogo.Program.Words
import SteppedLogo.Proofs.Gate.Listeners
import SteppedLogo.Proofs.Gate.Noted

namespace SteppedLogo

open World

namespace Scene

variable {env : Env} {P : Op → Prop} {s t u : Scene} {log : List Notice}

/-- What is noted of the next thing that happens in a scene without the host. -/
def notices (env : Env) (s : Scene) : List Notice :=
  match s.activity with
  | .turn ⟨_, _, .op o _⟩ => (performNoted env o s.world).2
  | .deed (.op o _) => (performNoted env o s.world).2
  | _ => []

/-- What may happen next, with what is noted of it. -/
inductive StepNoted (env : Env) (P : Op → Prop) : Scene → List Notice → Scene → Prop
  | next {s t : Scene} (hnext : s.next? env = some t) : StepNoted env P s (s.notices env) t
  | clock (w : World) (clock : Float) : StepNoted env P { world := w } [] { world := w.setClock clock }
  | perform (w : World) {o : Op} (ho : P o) :
    StepNoted env P { world := w } (performNoted env o w).2 { world := (w.perform env o).2 }
  | spawn (w : World) {code : Work Value} (hcode : code.run.All P) :
    StepNoted env P { world := w } [] { world := (w.addJob code).2 }

/-- Any number of steps, with what is noted of them. -/
inductive StepsNoted (env : Env) (P : Op → Prop) (s : Scene) : List Notice → Scene → Prop
  | refl : StepsNoted env P s [] s
  | tail {t u : Scene} {log more : List Notice} (hbefore : StepsNoted env P s log t)
    (hstep : StepNoted env P t more u) : StepsNoted env P s (log ++ more) u

/-- Whatever happens there are notices of it. -/
theorem steps_iff_noted : Steps env P s t ↔ ∃ log, StepsNoted env P s log t := by
  constructor
  · intro h
    induction h with
    | refl => exact ⟨[], .refl⟩
    | tail _ hstep ih =>
      obtain ⟨log, hbefore⟩ := ih
      cases hstep with
      | next hnext => exact ⟨_, hbefore.tail (.next hnext)⟩
      | clock w clock => exact ⟨_, hbefore.tail (.clock w clock)⟩
      | perform w ho => exact ⟨_, hbefore.tail (.perform w ho)⟩
      | spawn w hcode => exact ⟨_, hbefore.tail (.spawn w hcode)⟩
  · rintro ⟨log, h⟩
    induction h with
    | refl => exact .refl
    | tail _ hstep ih =>
      refine ih.tail ?_
      cases hstep with
      | next hnext => exact .next hnext
      | clock w clock => exact .clock w clock
      | perform w ho => exact .perform w ho
      | spawn w hcode => exact .spawn w hcode

/-- What is noted of one thing that happens is true. -/
theorem StepNoted.accounts (h : StepNoted env P s log t) : s.world.Accounts log t.world := by
  cases h with
  | clock w clock => exact accounts_nil rfl
  | perform w ho => exact accounts_perform env _ w
  | spawn w hcode => exact accounts_nil rfl
  | next hnext =>
    obtain ⟨w, activity⟩ := s
    cases activity with
    | turn turn =>
      obtain ⟨id, job, r⟩ := turn
      cases hnext
      cases r with
      | op o k => exact accounts_perform env o w
      | done | await => exact accounts_nil (advance_ledger (fun o k hr => by cases hr) w)
    | deed c =>
      cases c with
      | done result =>
        cases hnext
        exact accounts_nil rfl
      | op o k =>
        cases hnext
        exact accounts_perform env o w
    | none =>
      simp only [next?] at hnext
      split at hnext
      · cases hnext
      · cases hnext
        exact accounts_nil rfl
      · next c l _ =>
        cases hnext
        exact accounts_nil (called_ledger { w with loop := l } c)

/-- Where listeners raise errors only, each step that they begin to be told of is set up. -/
theorem StepNoted.unstopped (herrors : env.RaisesErrors) (h : StepNoted env P s log t) :
    ∀ n ∈ log, n.isStopped = false := by
  have hnone : ∀ n ∈ ([] : List Notice), n.isStopped = false := fun n hn => by cases hn
  cases h with
  | clock | spawn => exact hnone
  | perform w ho => exact unstopped_perform herrors _ w
  | next hnext =>
    unfold notices
    split
    · exact unstopped_perform herrors _ _
    · exact unstopped_perform herrors _ _
    · exact hnone

theorem StepsNoted.unstopped (herrors : env.RaisesErrors) (h : StepsNoted env P s log t) :
    ∀ n ∈ log, n.isStopped = false := by
  induction h with
  | refl => exact fun n hn => by cases hn
  | tail _ hstep ih => exact fun n hn => (List.mem_append.1 hn).elim (ih n) (hstep.unstopped herrors n)

theorem StepsNoted.accounts (h : StepsNoted env P s log t) : s.world.Accounts log t.world := by
  induction h with
  | refl => exact accounts_nil rfl
  | tail _ hstep ih => exact ih.append hstep.accounts

end Scene

namespace Scene

variable {env : Env} {P : Op → Prop} {s t : Scene} {log : List Notice}

/-- Listeners of which one removes the earliest registration of itself when it is told of the first step, adds another
listener, takes a step and fails. -/
def unrulyEnv : Env where
  program := Words.execute turtleWords
  react name event := actsCode name event 0 <| if name = "a" then
    [{ deed := .remove "a", seq := some 1 }, { deed := .add "c", seq := some 1 },
      { deed := .step (.text "inner"), seq := some 1 }, { deed := .raise (.cancellation .none), seq := some 1 }]
    else []

end Scene

end SteppedLogo
