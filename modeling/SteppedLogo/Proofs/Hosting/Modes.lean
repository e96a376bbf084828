import SteppedLogo.Interpreter.Builtin
import SteppedLogo.Proofs.Hosting.Progress

namespace SteppedLogo

open World

/-- A host that is to run the code on a bridge. -/
def Bridge.engagement (b : Bridge) (asks : Bool) (programs : List String)
    (Settles : List (String × Exit) → List String → Except FaultId Value → Prop) : Engagement where
  asks := asks
  programs := programs
  Settles := Settles
  host := b.world.jobs.size
  future := b.world.futures.size
  before := b.world.session.runs.toList

/-- The code has been started on the bridge, and something may have happened since. -/
def Bridge.Reaches (b : Bridge) (code : Work Value) (w : World) : Prop :=
  Relation.ReflTransGen (Happens b.env) (b.world.addJob code).2 w

/-- What has come of the code, if it has ended. -/
def Bridge.answer? (b : Bridge) (w : World) : Option Outcome := w.outcome? b.world.futures.size

/-- On the bridge nothing has happened yet, its console shows each step, and its programs go step by step. -/
structure Bridge.Fresh (b : Bridge) : Prop where
  runs : b.world.session.runs = #[{}]
  records : b.world.output.records = #[]
  loop : b.world.loop.Queues []
  pending : b.world.gate.pending = none
  react : b.env.react = Launch.react
  steps : ∀ source known, (b.env.program source).run.Stepwise Routine.Told known

namespace Bridge

variable {b : Bridge} {code : Work Value} {asks : Bool} {programs : List String} {w : World}
variable {Settles : List (String × Exit) → List String → Except FaultId Value → Prop}

/-- Driving the bridge is one of the ways on. -/
theorem Reaches.driveUntil (h : b.Reaches code w) (future : FutureId) (n : Nat) :
    b.Reaches code (w.driveUntil b.env future n) := by
  induction n generalizing w with
  | zero => exact h
  | succ n ih =>
    unfold World.driveUntil
    split
    · exact h
    · split
      · rename_i v htick
        exact ih (h.tail (.tick htick))
      · split
        · exact h
        · exact ih (h.tail (.clock w _))

theorem Fresh.engaged (h : b.Fresh) (hcode : code.run.Conducts asks Settles [] programs) (hw : b.Reaches code w) :
    Engaged b.env (b.engagement asks programs Settles) w := by
  have hsits : Sits (b.engagement asks programs Settles) [] programs
      ((b.engagement asks programs Settles).job (fun _ => code.run) none false) [.run b.world.jobs.size]
      (b.world.addJob code).2 := by
    refine ⟨Array.getElem?_push_size, Array.getElem?_push_size, ⟨rfl, [], (List.append_nil _).symm, .nil⟩, ?_, fun _ => ?_,
      h.loop.soon _, h.pending⟩
    · change (Session.run b.world.session).status.isActive = false
      rw [Session.run, h.runs]
      rfl
    · change _ ∉ b.world.output.records
      rw [h.records]
      exact Array.not_mem_empty _
  refine Engaged.reaches h.react h.steps (.opens ?_ hsits) hw
  exact hcode

/-- The code comes to its end, however long it has been on its way. -/
theorem Fresh.ends (h : b.Fresh) (hcode : code.run.Conducts asks Settles [] programs) (hw : b.Reaches code w) :
    ∃ fuel, ∀ n, fuel ≤ n → ∃ o, b.answer? (w.driveUntil b.env b.world.futures.size n) = some o := by
  obtain ⟨v, hdrives, hv⟩ := (h.engaged hcode hw).finishes h.react h.steps
  obtain ⟨past, left, result, -, -, o, ho, -⟩ := hv.settles
  obtain ⟨fuel, hfuel⟩ := hdrives.ends (isDone_iff.2 ⟨o, ho⟩)
  exact ⟨fuel, fun n hn => ⟨o, (congrArg b.answer? (hfuel n hn)).trans ho⟩⟩

/-- Whatever happens on the way, the program is run once, and nothing else is, without a prompt; and it comes to its end,
with the status that tells how its run has ended. -/
structure RunsOnce (b : Bridge) (source : String) : Prop where
  runs : ∀ w, b.Reaches (Launch.runProgram source) w →
    w.session.runs = #[{}] ∨ ∃ run : Run, w.session.runs = #[{}, run] ∧ run.source = source
  unasked : ∀ w, b.Reaches (Launch.runProgram source) w → .prompt ∉ w.output.records
  status : ∀ w, b.Reaches (Launch.runProgram source) w → ∀ o, b.answer? w = some o → ∃ (exit : Exit) (run : Run),
    o = .value (.int exit.code) ∧ w.session.runs = #[{}, run] ∧ run.source = source ∧ run.Warrants w.faults exit
  ends : ∀ w, b.Reaches (Launch.runProgram source) w →
    ∃ fuel, ∀ n, fuel ≤ n → ∃ o, b.answer? (w.driveUntil b.env b.world.futures.size n) = some o

theorem Fresh.runsOnce (h : b.Fresh) (source : String) : b.RunsOnce source := by
  have hcode := Launch.runProgram_conducts source
  have hbefore : b.world.session.runs.toList = [{}] := congrArg Array.toList h.runs
  have hruns {w : World} {more : List Run} (hmore : w.session.runs.toList = b.world.session.runs.toList ++ more) :
      w.session.runs = (({} : Run) :: more).toArray := by
    rw [hbefore] at hmore
    exact Array.toList_inj.1 hmore
  refine ⟨fun w hw => ?_, fun w hw => (h.engaged hcode hw).unasked rfl, fun w hw o ho => ?_, fun w hw => h.ends hcode hw⟩
  · obtain ⟨more, hmore, hsources⟩ := (h.engaged hcode hw).sources
    obtain hnone | ⟨rest, hone, hrest⟩ := List.prefix_cons_iff.1 hsources
    · rw [List.map_eq_nil_iff.1 hnone] at hmore
      exact .inl (hruns hmore)
    · rw [List.prefix_nil.1 hrest] at hone
      obtain ⟨run, rfl, hsource⟩ := List.map_eq_singleton_iff.1 hone
      exact .inr ⟨run, hruns hmore, hsource⟩
  · have hended := (h.engaged hcode hw).discharged_of_done (isDone_iff.2 ⟨o, ho⟩)
    obtain ⟨past, left, result, ⟨exit, rfl, rfl, rfl⟩, hchronicle, o', ho', hvalue⟩ := hended.settles
    obtain ⟨more, hmore, hpast⟩ := hchronicle.runs
    obtain ⟨run, rfl, hsource, hrun⟩ : ∃ run, more = [run] ∧ run.source = source ∧ run.Warrants w.faults exit := by
      cases hpast with
      | cons hrun hnil =>
        cases hnil
        exact ⟨_, rfl, hrun⟩
    have hsame : o = o' := Option.some.inj (ho.symm.trans ho')
    exact ⟨exit, run, hsame.trans (hvalue _ rfl), hruns hmore, hsource, hrun⟩

/-- The lines that are typed at a prompt, unless the user interrupts it before the first one. -/
def entered (typed : Option (List Prompt.Keys)) : List String := (typed.map Prompt.typed).getD []

/-- Whatever happens on the way, the programs among the entries are run in their order, as far as the prompt has come, and
nothing else is; and the prompt comes to its end. -/
structure Serves (b : Bridge) (typed : Option (List Prompt.Keys)) (code : Work Value) : Prop where
  runs : ∃ groups rest, Prompt.Cut (entered typed) groups rest ∧ ∀ w, b.Reaches code w →
    ∃ more : List Run, w.session.runs.toList = {} :: more ∧ more.map Run.source <+: Prompt.programs groups
  ends : ∀ w, b.Reaches code w →
    ∃ fuel, ∀ n, fuel ≤ n → ∃ o, b.answer? (w.driveUntil b.env b.world.futures.size n) = some o

theorem Fresh.serves (h : b.Fresh) (typed : Option (List Prompt.Keys)) (history : Path) :
    b.Serves typed (Launch.code typed (.prompt history)) := by
  obtain ⟨groups, rest, hcut⟩ := Prompt.Cut.exists_cut (entered typed)
  have hcode : (Launch.code typed (.prompt history)).run.Conducts true Prompt.Leaves [] (Prompt.programs groups) := by
    cases typed with
    | none =>
      have hnothing : Prompt.Cut (entered none) [] [] := ⟨rfl, nofun, nofun, nofun⟩
      obtain ⟨rfl, -⟩ := hnothing.unique hcut
      exact Launch.leavePrompt_conducts
    | some keys => exact Launch.runPrompt_conducts hcut
  refine ⟨⟨groups, rest, hcut, fun w hw => ?_⟩, fun w hw => h.ends hcode hw⟩
  obtain ⟨more, hmore, hsources⟩ := (h.engaged hcode hw).sources
  have hbefore : b.world.session.runs.toList = [{}] := congrArg Array.toList h.runs
  exact ⟨more, hmore.trans (congrArg (· ++ more) hbefore), hsources⟩

end Bridge

namespace Launch

variable {c : Catalogue} {s : Surroundings} {signals : Bool} {argv : List String} {o : Options} {target : String}
variable {interval : Float} {p : Product}

/-- A command line is understood, names an interpreter, and gives an interval that is accepted. -/
structure Asks (s : Surroundings) (argv : List String) (o : Options) (target : String) (interval : Float) : Prop where
  read : (options s argv).1 = .ok o
  names : given? o.interpreter = some target
  paces : o.interval = .value interval
  accepted : ¬ interval < 0.0

/-- A bridge that is opened for what has been loaded is fresh. -/
theorem bridge_fresh (hinterval : ¬ interval < 0.0) (p : Product) (traced signals : Bool) :
    ∃ b : Bridge, bridge interval traced p signals = .ok b ∧ b.Fresh := by
  refine ⟨_, bridge_opens hinterval p traced signals, rfl, rfl, ⟨rfl, rfl, Nat.le_refl _⟩, rfl, rfl,
    fun source known => ?_⟩
  cases p.interpreter with
  | none => exact .done (Routine.told_ok known _)
  | some i => exact i.program_stepwise source known

/-- What comes of setting up the log. -/
def openLog (s : Surroundings) (o : Options) : Except Complaint Unit :=
  match o.logLevel with
  | .blank => .error blankLevel
  | .value name => configure s (LogLevel.ofName name)

/-- `openLog` succeeds if the log is set up already, or the name of the level stands for a threshold. -/
theorem openLog_eq_ok_iff : openLog s o = .ok () ↔
    ∃ name, o.logLevel = .value name ∧ (s.logReady = true ∨ ∃ n, LogLevel.ofName name = .threshold n) := by
  cases hlevel : o.logLevel with
  | blank => simp [openLog, hlevel]
  | value name =>
    cases hready : s.logReady <;> cases hname : LogLevel.ofName name <;>
      simp [openLog, hlevel, configure, hready, hname, LogLevel.check, Except.map]

/-- Where the log cannot be set up, the start is broken off. -/
theorem Asks.start_of_error {why : Complaint} (h : Asks s argv o target interval) (c : Catalogue) (signals : Bool)
    (hlog : openLog s o = .error why) : (ofArguments c s signals argv).start = .broken why := by
  cases hlevel : o.logLevel with
  | blank =>
    rw [openLog, hlevel] at hlog
    cases hlog
    simp only [ofArguments, h.read, hlevel]
  | value name =>
    simp only [openLog, hlevel] at hlog
    simp only [ofArguments, h.read, hlevel, hlog]

/-- Where the log can be set up, the interpreter is loaded. -/
theorem Asks.start_of_ok (h : Asks s argv o target interval) (c : Catalogue) (signals : Bool)
    (hlog : openLog s o = .ok ()) : (ofArguments c s signals argv).start = (load c o interval target signals).1 := by
  have hbegins : begin c o signals = load c o interval target signals := by
    simp only [begin, h.names, h.paces, if_neg h.accepted]
  cases hlevel : o.logLevel with
  | blank =>
    rw [openLog, hlevel] at hlog
    cases hlog
  | value name =>
    simp only [openLog, hlevel] at hlog
    simp only [ofArguments, h.read, hlevel, hlog, hbegins]

theorem program?_value {source : String} (ho : o.command = some (.value source)) :
    program? o = if source = "" then none else some source := by
  simp only [program?, ho, given?, String.isEmpty_iff]

/-- Where its interpreter cannot be loaded, nothing is run. -/
theorem Asks.conduct_of_error {why : Complaint} (h : Asks s argv o target interval) (signals : Bool)
    (hlog : openLog s o = .ok ()) (hfails : c.load target = .error why) :
      (ofArguments c s signals argv).start.conduct s.home =
      if isLoadFault why.kind then .leaves 2 else .fails why := by
  have hload : load c o interval target signals =
      if isLoadFault why.kind then (.unloadable target why, [setupFailed why]) else (.broken why, []) := by
    rw [load, hfails]
    rfl
  rw [h.start_of_ok c signals hlog, hload]
  split <;> rfl

/-- Where its interpreter can be loaded, a bridge is opened for it, and the settings tell what is run there. -/
theorem Asks.conduct_of_ok (h : Asks s argv o target interval) (signals : Bool) (hlog : openLog s o = .ok ())
    (hloads : c.load target = .ok p) :
    ∃ b : Bridge, bridge interval (!o.noTrace) p signals = .ok b ∧ b.Fresh ∧
      (ofArguments c s signals argv).start.conduct s.home =
        match mode s.home o with
        | .ok m => .runs b m
        | .error why => .fails why := by
  obtain ⟨b, hbridge, hfresh⟩ := bridge_fresh h.accepted p (!o.noTrace) signals
  have hload : load c o interval target signals = (.ready b o, []) := by
    simp only [load, hloads, bind, Except.bind, hbridge]
  refine ⟨b, hbridge, hfresh, ?_⟩
  rw [h.start_of_ok c signals hlog, hload]
  rfl

/-- `ofArguments`, where the command line `Asks` for an interpreter and an interval that is accepted: if `openLog` and
`Catalogue.load` succeed, `conduct` runs the program of `-c` exactly if its text is not empty, and then `RunsOnce` holds
of it; otherwise the prompt `Serves`. If `openLog` fails so does the start, and if the interpreter cannot be loaded its
status is 2, or its fault is passed on; nothing is run in either case. -/
theorem command_runs_once (h : Asks s argv o target interval) (c : Catalogue) (signals : Bool) :
    (∀ why, openLog s o = .error why → (ofArguments c s signals argv).start.conduct s.home = .fails why) ∧
    (openLog s o = .ok () →
      (∀ why, c.load target = .error why → (ofArguments c s signals argv).start.conduct s.home =
        if isLoadFault why.kind then .leaves 2 else .fails why) ∧
      ∀ p, c.load target = .ok p → ∃ b : Bridge, bridge interval (!o.noTrace) p signals = .ok b ∧
        (∀ source, o.command = some (.value source) → b.RunsOnce source ∧
          ((ofArguments c s signals argv).start.conduct s.home = .runs b (.program source) ↔ source ≠ "")) ∧
        (program? o = none → (∀ typed history, b.Serves typed (code typed (.prompt history))) ∧
          (ofArguments c s signals argv).start.conduct s.home =
            match historyFile s.home o with
            | .ok history => .runs b (.prompt history)
            | .error why => .fails why)) := by
  refine ⟨fun why hlog => ?_, fun hlog => ⟨fun why => h.conduct_of_error signals hlog, fun p hloads => ?_⟩⟩
  · rw [h.start_of_error c signals hlog]
    rfl
  obtain ⟨b, hbridge, hfresh, hconduct⟩ := h.conduct_of_ok signals hlog hloads
  refine ⟨b, hbridge, fun source ho => ⟨hfresh.runsOnce source, ?_⟩, fun hnone => ⟨hfresh.serves, ?_⟩⟩
  · rw [hconduct, mode, program?_value ho]
    by_cases hempty : source = ""
    · rw [if_pos hempty]
      cases historyFile s.home o with
      | ok history => exact ⟨nofun, fun hsource => absurd hempty hsource⟩
      | error why => exact ⟨nofun, fun hsource => absurd hempty hsource⟩
    · rw [if_neg hempty]
      exact ⟨fun _ => hempty, fun _ => rfl⟩
  · rw [hconduct, mode, hnone]
    cases historyFile s.home o <;> rfl

/-- The settings of a command line that names an interpreter and holds a program. -/
def commandOptions (home target source : String) : Options where
  interpreter := some (.value target)
  interval := .value defaultInterval
  command := some (.value source)
  history := .value ((Path.ofText home).join ".logo-dbg-history")

theorem classify_value {text : String} (h : text.startsWith "-" = false) : CommandLine.classify text = .ok .value := by
  rw [CommandLine.classify, h]
  rfl

theorem not_separator {text : String} (h : text.startsWith "-" = false) : text ≠ CommandLine.separator := by
  rintro rfl
  revert h
  decide +kernel

/-- Texts that do not begin like a flag are taken as they are, empty ones included. -/
theorem asks_command {home target source : String} (htarget : target.startsWith "-" = false) (hgiven : target ≠ "")
    (hsource : source.startsWith "-" = false) :
    Asks { home } ["--interpreter", target, "-c", source] (commandOptions home target source) target defaultInterval := by
  have hinterpreter : CommandLine.classify "--interpreter" = .ok (.flag .interpreter "--interpreter" none) := by
    rw [CommandLine.classify, if_neg (by decide +kernel)]
    rfl
  have hcommand : CommandLine.classify "-c" = .ok (.flag .command "-c" none) := by
    rw [CommandLine.classify, if_neg (by decide +kernel)]
    rfl
  have hclassify : CommandLine.classifyAll ["--interpreter", target, "-c", source] = .ok
      [("--interpreter", .flag .interpreter "--interpreter" none), (target, .value), ("-c", .flag .command "-c" none),
        (source, .value)] := by
    simp only [CommandLine.classifyAll, hinterpreter, classify_value htarget, hcommand, classify_value hsource,
      if_neg (not_separator htarget), if_neg (not_separator hsource)]
    rfl
  have htakes (o : Options) : CommandLine.take o [] none
      [("--interpreter", .flag .interpreter "--interpreter" none), (target, .value), ("-c", .flag .command "-c" none),
        (source, .value)] = .ok ({ o with interpreter := some (.value target), command := some (.value source) }, []) := by
    have hnames (o : Options) :
        CommandLine.assign o .interpreter target = .ok { o with interpreter := some (.value target) } := by
      simp only [CommandLine.assign, if_neg (not_separator htarget)]
    have hholds (o : Options) : CommandLine.assign o .command source = .ok { o with command := some (.value source) } := by
      simp only [CommandLine.assign, if_neg (not_separator hsource)]
    change (CommandLine.assign o .interpreter target >>= fun o => CommandLine.assign o .command source >>= fun o =>
      CommandLine.take o [] none []) = _
    rw [hnames]
    change (CommandLine.assign _ .command source >>= fun o => CommandLine.take o [] none []) = _
    rw [hholds]
    rfl
  refine ⟨?_, ?_, rfl, by decide +kernel⟩
  · simp only [options, CommandLine.parse, hclassify, bind, Except.bind, htakes]
    rfl
  · change (if target.isEmpty then none else some target) = some target
    rw [if_neg fun hempty => hgiven (String.isEmpty_iff.1 hempty)]

/-- The log is set up for warnings where no flag says otherwise. -/
theorem openLog_command {home target source : String} : openLog { home } (commandOptions home target source) = .ok () :=
  openLog_eq_ok_iff.2 ⟨"WARNING", rfl, .inr ⟨30, rfl⟩⟩

/-- The interpreter of words can be loaded. -/
theorem load_plain : Catalogue.builtin.load "words:Plain" = .ok (.ofInterpreter "Plain" {}) := by
  have htarget : "words:Plain".splitOn ":" = ["words", "Plain"] := by simp +decide [String.splitOn, String.splitOnAux]
  have hname : "words".splitOn "." = ["words"] := by simp +decide [String.splitOn, String.splitOnAux]
  have hpath : "Plain".splitOn "." = ["Plain"] := by simp +decide [String.splitOn, String.splitOnAux]
  have hsplit : Catalogue.splitTarget? "words:Plain" = some ("words", "Plain") := by
    rw [Catalogue.splitTarget?, htarget]
    rfl
  have himport : Catalogue.builtin.importModule "words" = .ok {
      name := "words"
      members := [("Plain", .interpreters "Plain" "Plain" {}),
        ("Wrapping", .interpreters "Wrapping" "Wrapping" { wrapping := true })] } := by
    rw [Catalogue.importModule, if_neg (by decide +kernel), hname]
    rfl
  simp only [Catalogue.load, hsplit, himport, hpath]
  rfl

/-- A program of one word is run once, and gives the status of its run. -/
theorem word_runs_once :
    Asks { home := "/root" } ["--interpreter", "words:Plain", "-c", "pu"] (commandOptions "/root" "words:Plain" "pu")
      "words:Plain" defaultInterval ∧
    ∃ b : Bridge, (ofArguments .builtin { home := "/root" } false
        ["--interpreter", "words:Plain", "-c", "pu"]).start.conduct "/root" = .runs b (.program "pu") ∧
      ∃ (n : Nat) (exit : Exit) (run : Run) (v : World),
        b.world.complete b.env n (runProgram "pu") = (some (.value (.int exit.code)), v) ∧
        v.session.runs = #[{}, run] ∧ run.source = "pu" ∧ run.Warrants v.faults exit := by
  have hasks : Asks { home := "/root" } ["--interpreter", "words:Plain", "-c", "pu"]
      (commandOptions "/root" "words:Plain" "pu") "words:Plain" defaultInterval :=
    asks_command (by decide +kernel) (by decide) (by decide +kernel)
  obtain ⟨b, -, hruns, -⟩ := ((command_runs_once hasks .builtin false).2 openLog_command).2 _ load_plain
  obtain ⟨honce, hconduct⟩ := hruns "pu" rfl
  obtain ⟨n, hn⟩ := honce.ends _ .refl
  obtain ⟨o, ho⟩ := hn n (Nat.le_refl n)
  have hreaches : b.Reaches (runProgram "pu") (b.world.addJob (runProgram "pu")).2 := .refl
  obtain ⟨exit, run, rfl, hrun, hsource, hwarrants⟩ := honce.status _ (hreaches.driveUntil b.world.futures.size n) o ho
  exact ⟨hasks, b, hconduct.2 (by decide), n, exit, run, _, congrArg (·, _) ho, hrun, hsource, hwarrants⟩

/-- An empty program of the command line is not run: the user is prompted instead, and where he ends the input at once
nothing is run at all. -/
theorem empty_command_prompts :
    (options { home := "/root" } ["--interpreter", "words:Plain", "-c", ""]).1 =
      .ok (commandOptions "/root" "words:Plain" "") ∧
    ∃ b history, (ofArguments .builtin { home := "/root" } false
        ["--interpreter", "words:Plain", "-c", ""]).start.conduct "/root" = .runs b (.prompt history) ∧
      (∀ w, b.Reaches (code (some []) (.prompt history)) w → w.session.runs = #[{}]) ∧
      ∃ w, b.Reaches (code (some []) (.prompt history)) w ∧ .prompt ∈ w.output.records := by
  have hasks : Asks { home := "/root" } ["--interpreter", "words:Plain", "-c", ""]
      (commandOptions "/root" "words:Plain" "") "words:Plain" defaultInterval :=
    asks_command (by decide +kernel) (by decide) (by decide +kernel)
  obtain ⟨b, hbridge, hfresh, hconduct⟩ := hasks.conduct_of_ok false openLog_command load_plain
  refine ⟨hasks.read, b, (Path.ofText "/root").join ".logo-dbg-history", ?_, fun w hw => ?_, ?_⟩
  · rw [hconduct]
    rfl
  · obtain ⟨⟨groups, rest, hcut, hruns⟩, -⟩ := hfresh.serves (some []) ((Path.ofText "/root").join ".logo-dbg-history")
    obtain ⟨more, hmore, hsources⟩ := hruns w hw
    have hnothing : Prompt.Cut (Bridge.entered (some [])) [] [] := ⟨rfl, nofun, nofun, nofun⟩
    obtain ⟨rfl, -⟩ := hnothing.unique hcut
    rw [List.map_eq_nil_iff.1 (List.prefix_nil.1 hsources)] at hmore
    exact Array.toList_inj.1 hmore
  · rw [bridge_opens hasks.accepted] at hbridge
    cases hbridge
    exact ⟨_, .single (.tick rfl), Array.mem_of_getElem? (i := 0) rfl⟩

end Launch

end SteppedLogo
