import SteppedLogo.Launch
import SteppedLogo.Proofs.Program.Pacing
import SteppedLogo.Proofs.Prompt.Entries

namespace SteppedLogo

/-- What a host performs besides running programs; with `asks`, it may prompt for lines. -/
def Op.IsHosting (asks : Bool) : Op → Prop
  | setPacing _ | setTrace _ | clearView | print .. | describe _ | raise _ | setStatus _ | pacing | turtle => True
  | write record => asks = false → record ≠ .prompt
  | _ => False

namespace Routine

variable {α β : Type} {asks : Bool} {past : List (String × Exit)} {left : List String}

/-- Code that runs no program, and does not wait. -/
def Chores (asks : Bool) : Routine α → Prop
  | done _ => True
  | op o k => o.IsHosting asks ∧ ∀ reply, (k reply).Chores asks
  | await .. => False

theorem Chores.bind {r : Routine α} {f : α → Routine β} (hr : r.Chores asks) (hf : ∀ a, (f a).Chores asks) :
    (r.bind f).Chores asks := by
  induction r with
  | done a => exact hf a
  | op o k ih => exact ⟨hr.1, fun reply => ih reply (hr.2 reply)⟩
  | await => exact hr.elim

/-- Programs are run one after another, in calls of `Host.runProgram`: those in `past` have been run, with the exits of
their calls, and those in `left` are to be run. `Q` holds of both, and of the result, at the end. -/
inductive Conducts (asks : Bool) (Q : List (String × Exit) → List String → α → Prop) :
    List (String × Exit) → List String → Routine α → Prop
  | done {past : List (String × Exit)} {left : List String} {a : α} (ha : Q past left a) :
    Conducts asks Q past left (.done a)
  | op {past : List (String × Exit)} {left : List String} {o : Op} {k : o.Reply → Routine α} (ho : o.IsHosting asks)
    (hk : ∀ reply, Conducts asks Q past left (k reply)) : Conducts asks Q past left (.op o k)
  | call {past : List (String × Exit)} {left : List String} (source : String)
    {k : Except FaultId Exit → Routine α}
    (hk : ∀ exit, Conducts asks Q (past ++ [(source, exit)]) left (k (.ok exit))) :
    Conducts asks Q past (source :: left) ((Host.runProgram source).run.bind k)

/-- Code that runs no program leaves it to what is behind it to run them. -/
theorem Chores.conducts {r : Routine α} {f : α → Routine β} {Q : List (String × Exit) → List String → β → Prop}
    (hr : r.Chores asks) (hf : ∀ a, (f a).Conducts asks Q past left) : (r.bind f).Conducts asks Q past left := by
  induction r with
  | done a => exact hf a
  | op o k ih => exact .op hr.1 fun reply => ih reply (hr.2 reply)
  | await => exact hr.elim

end Routine

namespace Work

variable {α β : Type} {asks : Bool} {x : Work α} {f : α → Work β} {past : List (String × Exit)} {left : List String}

theorem chores_perform {o : Op} (ho : o.IsHosting asks) : (perform o).run.Chores asks := ⟨ho, fun _ => trivial⟩

theorem chores_bind (hx : x.run.Chores asks) (hf : ∀ a, (f a).run.Chores asks) : (x >>= f).run.Chores asks := by
  rw [run_bind]
  refine hx.bind fun result => ?_
  cases result with
  | ok a => exact hf a
  | error fault => trivial

theorem conducts_bind {Q : List (String × Exit) → List String → Except FaultId β → Prop} (hx : x.run.Chores asks)
    (hf : ∀ a, (f a).run.Conducts asks Q past left) (herror : ∀ fault, Q past left (.error fault)) :
    (x >>= f).run.Conducts asks Q past left := by
  rw [run_bind]
  refine hx.conducts fun result => ?_
  cases result with
  | ok a => exact hf a
  | error fault => exact .done (herror fault)

/-- A program is run, and the rest is done behind it. -/
theorem conducts_call {Q : List (String × Exit) → List String → Except FaultId β → Prop} {f : Exit → Work β}
    (source : String) (hf : ∀ exit, (f exit).run.Conducts asks Q (past ++ [(source, exit)]) left) :
    (Host.runProgram source >>= f).run.Conducts asks Q past (source :: left) := by
  rw [run_bind]
  exact .call source hf

end Work

namespace Prompt

open Work (chores_perform chores_bind conducts_bind)

theorem complainOf_chores (text : String) : (complainOf text).run.Chores true := chores_perform trivial

theorem writeText_chores (text : String) : (writeText text).run.Chores true := chores_perform nofun

theorem setTrace_chores (on : Bool) : (setTrace on).run.Chores true := by
  cases on with
  | true => exact chores_bind (chores_perform trivial) fun _ => writeText_chores _
  | false => exact chores_bind (chores_perform trivial) fun _ =>
      chores_bind (chores_perform trivial) fun _ => writeText_chores _

theorem setInterval_chores (text : String) : (setInterval text).run.Chores true := by
  unfold setInterval
  split
  · exact complainOf_chores _
  · refine chores_bind (chores_perform trivial) fun accepted => ?_
    cases accepted with
    | ok => exact chores_bind (chores_perform trivial) fun _ => writeText_chores _
    | error id => exact chores_bind (chores_perform trivial) fun _ => complainOf_chores _

theorem showTurtle_chores : showTurtle.run.Chores true := by
  refine chores_bind (chores_perform trivial) fun t => ?_
  split
  · exact writeText_chores _
  · exact chores_bind (chores_perform trivial) fun _ => trivial

theorem showHelp_chores : showHelp.run.Chores true :=
  chores_bind (writeText_chores _) fun _ => chores_bind (writeText_chores _) fun _ => writeText_chores _

theorem runCommand_chores (c : HostCommand) (args : List String) : (runCommand c args).run.Chores true := by
  unfold runCommand
  split
  · exact chores_bind showHelp_chores fun _ => trivial
  · exact chores_bind showTurtle_chores fun _ => trivial
  · exact chores_bind (setTrace_chores true) fun _ => trivial
  · exact chores_bind (setTrace_chores false) fun _ => trivial
  · exact chores_bind (complainOf_chores _) fun _ => trivial
  · exact chores_bind (setInterval_chores _) fun _ => trivial
  · exact chores_bind (complainOf_chores _) fun _ => trivial
  · trivial

/-- A command of the host runs no program. -/
theorem dispatchCommand_chores (words : List String) : (dispatchCommand words).run.Chores true := by
  unfold dispatchCommand
  split
  · exact chores_bind (complainOf_chores _) fun _ => trivial
  · split
    · exact runCommand_chores _ _
    · exact chores_bind (complainOf_chores _) fun _ => trivial

theorem writePrompts_chores (n : Nat) : (writePrompts n).run.Chores true := by
  induction n with
  | zero => trivial
  | succ n ih => exact chores_bind (chores_perform nofun) fun _ => ih

/-- The program that an entry is, if it is one. -/
def Request.source? : Request → Option String
  | program source => some source
  | nothing | command _ => none

/-- The programs among the entries of groups, up to the first entry that quits. -/
def programs : List Group → List String
  | [] => []
  | g :: groups => g.request.source?.toList ++ if g.request.quits then [] else programs groups

/-- At its end a prompt has run all its programs, and leaves well. -/
def Leaves (_ : List (String × Exit)) (left : List String) (result : Except FaultId Value) : Prop :=
  ∀ v, result = .ok v → left = [] ∧ v = .int 0

/-- A prompt that serves the entries of groups runs the programs among them. -/
theorem session_conducts (rest : Nat) (groups : List Group) (past : List (String × Exit)) :
    (session hostRunner rest groups >>= fun _ => pure (.int 0) : Work Value).run.Conducts true Leaves past
      (programs groups) := by
  have hends (past : List (String × Exit)) : (pure (.int 0) : Work Value).run.Conducts true Leaves past [] :=
    .done fun _ hv => ⟨rfl, (Except.ok.inj hv).symm⟩
  have hfails (past : List (String × Exit)) (left : List String) (fault : FaultId) : Leaves past left (.error fault) :=
    nofun
  induction groups generalizing past with
  | nil =>
    simp only [session, bind_assoc]
    exact conducts_bind (writePrompts_chores _) (fun _ => conducts_bind (writeText_chores _) (fun _ => hends past)
      (hfails _ _)) (hfails _ _)
  | cons g groups ih =>
    have hbehind (past : List (String × Exit)) :
        ((if g.request.quits then pure () else session hostRunner rest groups) >>= fun _ =>
          pure (.int 0) : Work Value).run.Conducts true Leaves past
            (if g.request.quits then [] else programs groups) := by
      split
      · exact hends past
      · exact ih past
    simp only [session, bind_assoc, programs]
    refine conducts_bind (writePrompts_chores _) (fun _ => ?_) (hfails _ _)
    generalize g.request = request at hbehind
    cases request with
    | nothing => exact hbehind past
    | command words =>
      exact bind_assoc (dispatchCommand words) _ _ ▸
        conducts_bind (dispatchCommand_chores words) (fun _ => hbehind past) (hfails _ _)
    | program source =>
      have hserve : (Request.program source).serve hostRunner =
          Host.runProgram source >>= fun exit => (Work.perform (.setStatus exit.code) : Work Unit) :=
        bind_assoc (Host.runProgram source) (fun exit => pure exit.code)
          fun status => (Work.perform (.setStatus status) : Work Unit)
      rw [hserve]
      exact bind_assoc (Host.runProgram source) _ _ ▸ Work.conducts_call source fun exit =>
        conducts_bind (chores_perform trivial) (fun _ => hbehind _) (hfails _ _)

/-- The lines that are typed before the user interrupts the prompt, or ends the input. -/
def typed : List Keys → List String
  | .line line :: rest => line :: typed rest
  | .interrupt :: _ | .endOfInput :: _ | [] => []

/-- Behind these lines the prompt is left. -/
theorem runFrom_typed (run : Runner) (waiting : List String) (keys : List Keys) :
    runFrom run waiting keys = runFrom run waiting ((typed keys).map .line) := by
  induction keys generalizing waiting with
  | nil => rfl
  | cons key rest ih =>
    cases key with
    | interrupt => simp [typed, runFrom, turn]
    | endOfInput => simp [typed, runFrom, turn]
    | line line =>
      simp only [typed, List.map_cons, runFrom]
      congr 1
      funext _
      congr 1
      funext next
      cases next with
      | none => rfl
      | some waiting => exact ih waiting

end Prompt

namespace Launch

/-- A program of the command line has been run once, and its status is given. -/
def Ran (source : String) (past : List (String × Exit)) (left : List String) (result : Except FaultId Value) : Prop :=
  ∃ exit, past = [(source, exit)] ∧ left = [] ∧ result = .ok (.int exit.code)

theorem runProgram_conducts (source : String) :
    (runProgram source).run.Conducts false (Ran source) [] [source] :=
  Work.conducts_call source fun exit => .done ⟨exit, rfl, rfl, rfl⟩

/-- A prompt runs the programs among its entries, those typed behind an interrupt not counted. -/
theorem runPrompt_conducts {keys : List Prompt.Keys} {groups : List Prompt.Group} {rest : List String}
    (hcut : Prompt.Cut (Prompt.typed keys) groups rest) :
    (runPrompt keys).run.Conducts true Prompt.Leaves [] (Prompt.programs groups) := by
  rw [runPrompt, Prompt.runFrom_typed, hcut.runFrom_eq]
  exact Prompt.session_conducts rest.length groups []

/-- A prompt that is interrupted before its first line runs nothing. -/
theorem leavePrompt_conducts : leavePrompt.run.Conducts true Prompt.Leaves [] [] :=
  Work.conducts_bind (Prompt.writeText_chores "") (fun _ => .done fun _ hv => ⟨rfl, (Except.ok.inj hv).symm⟩)
    fun _ => nofun

end Launch

end SteppedLogo
