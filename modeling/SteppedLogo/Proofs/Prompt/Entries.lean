import Mathlib.Data.List.TakeWhile
import SteppedLogo.Prompt.Basic
import SteppedLogo.Proofs.Program.Hosted

namespace SteppedLogo

instance Routine.lawfulMonad : LawfulMonad Routine := by
  refine LawfulMonad.mk' Routine (fun r => ?_) (fun _ _ => rfl) Routine.bind_assoc
  change r.bind Routine.done = r
  induction r with
  | done a => rfl
  | op o k ih => exact congrArg (Routine.op o) (funext ih)
  | await future k ih => exact congrArg (Routine.await future) (funext ih)

namespace Prompt

inductive Request
  | nothing
  | command (words : List String)
  | program (source : String)
  deriving DecidableEq

namespace Request

/-- A blank entry asks for nothing. One that begins with the mark of a command asks for the command, and is
    taken apart into words; any other one is a program. Blanks around an entry do not count. -/
def ofEntry (entry : String) : Request :=
  match Text.trim entry.toList with
  | [] => nothing
  | ':' :: rest => command (Text.words (String.ofList rest))
  | source => program (String.ofList source)

/-- The user has done with the prompt. -/
def quits : Request → Bool
  | command words => words.head? == some "quit"
  | nothing | program _ => false

/-- What is done for a request. A program is run once, and its status is remembered. -/
def serve (run : Runner) : Request → Work Unit
  | nothing => pure ()
  | command words => do let _ ← dispatchCommand words
  | program source => do Work.perform (.setStatus (← run source))

end Request

theorem runCommand_eq (c : HostCommand) (args : List String) : runCommand c args = do
    let _ ← runCommand c args
    return c != .quit := by
  unfold runCommand
  split <;> simp

/-- A command goes on unless its first word is `quit`. -/
theorem dispatchCommand_eq (words : List String) : dispatchCommand words = do
    let _ ← dispatchCommand words
    return !(Request.command words).quits := by
  cases words with
  | nil => simp [dispatchCommand, Request.quits]
  | cons name args =>
    cases hname : HostCommand.ofName? name with
    | none =>
      -- to quit is a command with a name
      have hstays : (Request.command (name :: args)).quits = false := by
        by_contra hquits
        have hquit : name = "quit" := by simpa [Request.quits] using hquits
        subst hquit
        cases hname
      simp [dispatchCommand, hname, hstays]
    | some c =>
      have hc : c.name = name := by simpa using List.find?_some hname
      have hquits : (c != .quit) = !(Request.command (name :: args)).quits := by
        subst hc
        cases c <;> rfl
      simp only [dispatchCommand, hname]
      rw [← hquits]
      exact runCommand_eq c args

theorem startsWith_mark (c : Char) (rest : List Char) :
    (String.ofList (c :: rest)).startsWith HostCommand.mark = true ↔ c = ':' := by
  have hmark : HostCommand.mark.toList = [':'] := by rfl
  rw [String.startsWith_string_iff, hmark, String.toList_ofList, List.cons_prefix_cons]
  exact ⟨fun h => h.1.symm, fun h => ⟨h.symm, List.nil_prefix⟩⟩

theorem drop_mark (c : Char) (rest : List Char) :
    ((String.ofList (c :: rest)).drop HostCommand.mark.length).toString = String.ofList rest := by
  have hlength : HostCommand.mark.length = 1 := by rfl
  apply String.toList_injective
  change ((String.ofList (c :: rest)).drop _).copy.toList = _
  rw [hlength, String.toList_copy_drop, String.toList_ofList, String.toList_ofList]
  rfl

/-- An entry is served as what it asks for, and the prompt goes on unless that is to quit. -/
theorem dispatch_eq (run : Runner) (entry : String) : dispatch run entry = do
    (Request.ofEntry entry).serve run
    return !(Request.ofEntry entry).quits := by
  unfold dispatch Text.strip Request.ofEntry
  cases htext : Text.trim entry.toList with
  | nil => rfl
  | cons c rest =>
    dsimp only
    rw [if_neg (by simp), drop_mark]
    by_cases hmark : c = ':'
    · subst hmark
      rw [if_pos ((startsWith_mark ':' rest).2 rfl), dispatchCommand_eq]
      simp [Request.serve]
    · rw [if_neg fun h => hmark ((startsWith_mark c rest).1 h)]
      split
      · next hcs => cases hcs
      · next hcs => exact absurd (List.cons.inj hcs).1 hmark
      · exact (bind_assoc (run (String.ofList (c :: rest))) _ _).symm

/-- A line goes on in the next one if there is a backslash at its end, blanks behind it not counted. -/
def GoesOn (line : String) : Prop := (Text.trimRight line.toList).getLast? = some '\\'

instance : DecidablePred GoesOn := fun _ => inferInstanceAs (Decidable (_ = _))

/-- A line that goes on, without the blanks at its end and the backslash in front of them. -/
def partOf (line : String) : String := String.ofList (Text.trimRight line.toList).dropLast

/-- The lines of one entry: those that go on, and the one that completes it. -/
structure Group where
  continued : List String
  last : String

namespace Group

def lines (g : Group) : List String := g.continued ++ [g.last]

/-- A single line is an entry as it is. Several lines are joined by line ends, without the blanks and
    the backslashes at their ends. -/
def entry (g : Group) : String :=
  if g.continued = [] then g.last
  else "\n".intercalate (g.continued.map partOf ++ [Text.stripEnd g.last])

def request (g : Group) : Request := .ofEntry g.entry

end Group

/-- The groups of lines, and the lines behind them, which go on to their end. -/
structure Cut (lines : List String) (groups : List Group) (rest : List String) : Prop where
  lines_eq : lines = groups.flatMap Group.lines ++ rest
  continued : ∀ g ∈ groups, ∀ line ∈ g.continued, GoesOn line
  last : ∀ g ∈ groups, ¬ GoesOn g.last
  rest : ∀ line ∈ rest, GoesOn line

def writePrompt : Work Unit := Work.perform (.write .prompt)

def writePrompts : Nat → Work Unit
  | 0 => pure ()
  | n + 1 => do
    writePrompt
    writePrompts n

/-- Serves the entries of groups one after another, up to one that quits. A prompt stands in front of
    each line. Where the user does not quit, `rest` lines without an entry and the end of the input
    follow, and an empty line is written. -/
def session (run : Runner) (rest : Nat) : List Group → Work Unit
  | [] => do
    writePrompts (rest + 1)
    writeText ""
  | g :: groups => do
    writePrompts g.lines.length
    g.request.serve run
    if g.request.quits then pure () else session run rest groups

namespace Cut

variable {lines rest rest' : List String} {groups groups' : List Group} {line : String}

theorem of_rest (h : ∀ line ∈ rest, GoesOn line) : Cut rest [] rest := ⟨rfl, nofun, nofun, h⟩

/-- A line that does not go on is an entry of its own in front of others. -/
theorem cons_last (hline : ¬ GoesOn line) (h : Cut lines groups rest) :
    Cut (line :: lines) (⟨[], line⟩ :: groups) rest where
  lines_eq := by rw [h.lines_eq]; rfl
  continued := by
    rintro g (_ | ⟨_, hg⟩)
    · exact nofun
    · exact h.continued g hg
  last := by
    rintro g (_ | ⟨_, hg⟩)
    · exact hline
    · exact h.last g hg
  rest := h.rest

/-- A line that goes on belongs to the first group behind it. -/
theorem cons_continued {g : Group} (hline : GoesOn line) (h : Cut lines (g :: groups) rest) :
    Cut (line :: lines) ({ g with continued := line :: g.continued } :: groups) rest where
  lines_eq := by rw [h.lines_eq]; rfl
  continued := by
    rintro g' (_ | ⟨_, hg'⟩)
    · exact List.forall_mem_cons.2 ⟨hline, h.continued g (List.mem_cons_self ..)⟩
    · exact h.continued g' (List.mem_cons_of_mem _ hg')
  last := by
    rintro g' (_ | ⟨_, hg'⟩)
    · exact h.last g (List.mem_cons_self ..)
    · exact h.last g' (List.mem_cons_of_mem _ hg')
  rest := h.rest

theorem exists_cut (lines : List String) : ∃ groups rest, Cut lines groups rest := by
  induction lines with
  | nil => exact ⟨[], [], of_rest nofun⟩
  | cons line lines ih =>
    obtain ⟨groups, rest, h⟩ := ih
    by_cases hline : GoesOn line
    · cases groups with
      | nil =>
        obtain rfl : lines = rest := h.lines_eq
        exact ⟨[], line :: lines, of_rest (List.forall_mem_cons.2 ⟨hline, h.rest⟩)⟩
      | cons g groups => exact ⟨_, rest, h.cons_continued hline⟩
    · exact ⟨_, rest, h.cons_last hline⟩

/-- Behind the first group are the other ones. -/
theorem tail {g : Group} (h : Cut lines (g :: groups) rest) : Cut (groups.flatMap Group.lines ++ rest) groups rest where
  lines_eq := rfl
  continued := (List.forall_mem_cons.1 h.continued).2
  last := (List.forall_mem_cons.1 h.last).2
  rest := h.rest

/-- The first group is as long as lines go on, and one line longer. -/
theorem span_eq {g : Group} (h : Cut lines (g :: groups) rest) :
    lines.takeWhile GoesOn = g.continued ∧
      lines.dropWhile GoesOn = g.last :: (groups.flatMap Group.lines ++ rest) := by
  have hcontinued : ∀ line ∈ g.continued, decide (GoesOn line) = true := fun line hline =>
    decide_eq_true (h.continued g (List.mem_cons_self ..) line hline)
  have hlast : ¬ GoesOn g.last := h.last g (List.mem_cons_self ..)
  have hlines : lines = g.continued ++ g.last :: (groups.flatMap Group.lines ++ rest) := by
    rw [h.lines_eq]
    simp [Group.lines]
  rw [hlines, List.takeWhile_append_of_pos hcontinued, List.dropWhile_append_of_pos hcontinued]
  simp [hlast]

/-- Lines that all go on make no group. -/
theorem dropWhile_eq (h : Cut lines [] rest) : lines.dropWhile GoesOn = [] := by
  obtain rfl : lines = rest := h.lines_eq
  rw [List.dropWhile_eq_nil_iff]
  exact fun line hline => decide_eq_true (h.rest line hline)

/-- Lines are cut in one way only. -/
theorem unique (h : Cut lines groups rest) (h' : Cut lines groups' rest') : groups' = groups ∧ rest' = rest := by
  induction groups generalizing lines groups' with
  | nil =>
    cases groups' with
    | nil => exact ⟨rfl, h'.lines_eq.symm.trans h.lines_eq⟩
    | cons g' groups' =>
      have hspan := h'.span_eq.2
      rw [h.dropWhile_eq] at hspan
      cases hspan
  | cons g groups ih =>
    cases groups' with
    | nil =>
      have hspan := h.span_eq.2
      rw [h'.dropWhile_eq] at hspan
      cases hspan
    | cons g' groups' =>
      obtain ⟨htake, hdrop⟩ := h.span_eq
      obtain ⟨htake', hdrop'⟩ := h'.span_eq
      obtain ⟨hlast, hbehind⟩ := List.cons.inj (hdrop.symm.trans hdrop')
      have hg : g' = g := by
        cases g
        cases g'
        exact congr (congrArg Group.mk (htake'.symm.trans htake)) hlast.symm
      obtain ⟨hgroups, hrest⟩ := ih h.tail (hbehind ▸ h'.tail)
      exact ⟨by rw [hg, hgroups], hrest⟩

end Cut

variable (run : Runner) (waiting : List String) {line : String} (later : List Keys)

theorem continued?_of_goesOn (h : GoesOn line) : continued? line = some (partOf line) := by
  unfold GoesOn at h
  obtain ⟨front, hfront⟩ := List.getLast?_eq_some_iff.1 h
  simp [continued?, partOf, hfront]

theorem continued?_of_not_goesOn (h : ¬ GoesOn line) : continued? line = none := by
  unfold GoesOn at h
  unfold continued?
  split
  · next rest hrest =>
    rw [List.getLast?_eq_head?_reverse, hrest] at h
    exact absurd rfl h
  · rfl

theorem runFrom_goesOn (h : GoesOn line) : runFrom run waiting (.line line :: later) = (do
    writePrompt
    runFrom run (waiting ++ [partOf line]) later) := by
  simp [runFrom, turn, addLine, continued?_of_goesOn h, writePrompt]

/-- A line that does not go on completes the entry. -/
theorem runFrom_completes (h : ¬ GoesOn line) : runFrom run waiting (.line line :: later) = (do
    writePrompt
    let request := Request.ofEntry (entry (if waiting.isEmpty then [] else waiting ++ [Text.stripEnd line]) line)
    request.serve run
    if request.quits then pure () else runFrom run [] later) := by
  simp only [runFrom, turn, addLine, continued?_of_not_goesOn h, dispatch_eq]
  generalize Request.ofEntry _ = request
  cases request.quits <;> simp [writePrompt]

/-- The lines of a group behind those that wait for them already. -/
theorem runFrom_lines {continued : List String} {last : String} (hcontinued : ∀ line ∈ continued, GoesOn line)
    (hlast : ¬ GoesOn last) : runFrom run waiting ((continued ++ [last]).map .line ++ later) = (do
      writePrompts (continued.length + 1)
      let request := Request.ofEntry (if waiting = [] ∧ continued = [] then last
        else "\n".intercalate (waiting ++ continued.map partOf ++ [Text.stripEnd last]))
      request.serve run
      if request.quits then pure () else runFrom run [] later) := by
  induction continued generalizing waiting with
  | nil =>
    have hentry : entry (if waiting.isEmpty then [] else waiting ++ [Text.stripEnd last]) last =
        if waiting = [] then last else "\n".intercalate (waiting ++ [Text.stripEnd last]) := by
      cases waiting <;> simp [entry]
    have hcompletes := runFrom_completes run waiting later hlast
    rw [hentry] at hcompletes
    simpa [writePrompts] using hcompletes
  | cons line continued ih =>
    obtain ⟨hline, hcontinued⟩ := List.forall_mem_cons.1 hcontinued
    have hgoesOn := runFrom_goesOn run waiting ((continued ++ [last]).map .line ++ later) hline
    rw [ih (waiting ++ [partOf line]) hcontinued] at hgoesOn
    simpa [writePrompts] using hgoesOn

/-- The lines of a group come to its entry. -/
theorem runFrom_group {g : Group} (hcontinued : ∀ line ∈ g.continued, GoesOn line) (hlast : ¬ GoesOn g.last) :
    runFrom run [] (g.lines.map .line ++ later) = (do
      writePrompts g.lines.length
      g.request.serve run
      if g.request.quits then pure () else runFrom run [] later) := by
  have hentry : (if ([] : List String) = [] ∧ g.continued = [] then g.last
      else "\n".intercalate ([] ++ g.continued.map partOf ++ [Text.stripEnd g.last])) = g.entry := by
    unfold Group.entry
    by_cases hsingle : g.continued = [] <;> simp [hsingle]
  have hlines := runFrom_lines run [] later hcontinued hlast
  rw [hentry] at hlines
  rw [Group.lines, List.length_append]
  exact hlines

/-- Lines that go on to the end of the input come to nothing. -/
theorem runFrom_rest {rest : List String} (h : ∀ line ∈ rest, GoesOn line) : runFrom run waiting (rest.map .line) = (do
    writePrompts (rest.length + 1)
    writeText "") := by
  induction rest generalizing waiting with
  | nil =>
    simp only [List.length_nil, writePrompts, bind_assoc, pure_bind]
    simp [runFrom, turn, writePrompt]
  | cons line rest ih =>
    obtain ⟨hline, hrest⟩ := List.forall_mem_cons.1 h
    have hgoesOn := runFrom_goesOn run waiting (rest.map .line) hline
    rw [ih (waiting ++ [partOf line]) hrest] at hgoesOn
    simpa [writePrompts] using hgoesOn

variable {lines rest : List String} {groups : List Group}

theorem Cut.runFrom_eq (h : Cut lines groups rest) : runFrom run [] (lines.map .line) = session run rest.length groups := by
  induction groups generalizing lines with
  | nil =>
    obtain rfl : lines = rest := h.lines_eq
    exact runFrom_rest run [] h.rest
  | cons g groups ih =>
    have hlines : lines.map Keys.line = g.lines.map .line ++ (groups.flatMap Group.lines ++ rest).map .line := by
      rw [h.lines_eq]
      simp
    rw [hlines, runFrom_group run _ (h.continued g (List.mem_cons_self ..)) (h.last g (List.mem_cons_self ..)), ih h.tail]
    rfl

end Prompt

end SteppedLogo
