import SteppedLogo.Proofs.Command.Effect
import SteppedLogo.Proofs.Program.Pacing
import SteppedLogo.Program.Words
import SteppedLogo.World.Run

namespace SteppedLogo

variable {α : Type} {env : Env} {u v w : World}

/-- Whether an operation is the record of a call. -/
def Op.recordsCall : Op → Bool
  | recordCall .. => true
  | _ => false

namespace Routine

/-- Runs a routine up to the call that comes after `n` others, or else to where it ends or waits. -/
def afterCalls (env : Env) : Routine α → Nat → World → Routine α × World
  | op o k, n, w =>
    match o.recordsCall, n with
    | true, 0 => (op o k, w)
    | true, n + 1 => (k (w.perform env o).1).afterCalls env n (w.perform env o).2
    | false, n => (k (w.perform env o).1).afterCalls env n (w.perform env o).2
  | r, _, w => (r, w)

/-- Where a routine stops is where it stops from any of its calls on. -/
theorem run_afterCalls (r : Routine α) (n : Nat) (w : World) :
    (r.afterCalls env n w).1.run env (r.afterCalls env n w).2 = r.run env w := by
  induction r generalizing n w with
  | done a => rfl
  | await future k => rfl
  | op o k ih =>
    simp only [afterCalls]
    split
    · rfl
    · exact ih _ _ _
    · exact ih _ _ _

/-- A routine comes from the state `w` to the state `v`, with `n` calls in between, and there another
routine is left of it. -/
structure Reaches (env : Env) (r : Routine α) (w : World) (n : Nat) (rest : Routine α) (v : World) : Prop where
  calls : v.calls.size = w.calls.size + n
  afterCalls : ∀ m, r.afterCalls env (n + m) w = rest.afterCalls env m v

theorem Reaches.refl (r : Routine α) (w : World) : r.Reaches env w 0 r w :=
  ⟨rfl, fun m => by rw [Nat.zero_add]⟩

variable {r : Routine α} {n : Nat}

/-- What a routine reaches goes on past an operation that records no call, provided it leaves the calls as they are. -/
theorem Reaches.op {o : Op} {k : o.Reply → Routine α} (h : r.Reaches env w n (.op o k) v)
    (ho : o.recordsCall = false) (hcalls : (v.perform env o).2.calls = v.calls) :
    r.Reaches env w n (k (v.perform env o).1) (v.perform env o).2 := by
  refine ⟨by rw [hcalls, h.calls], fun m => ?_⟩
  rw [h.afterCalls]
  simp only [Routine.afterCalls, ho]

/-- Recording a call is one more call reached. -/
theorem Reaches.recordCall {word : String} {args : List Value} {k : Unit → Routine α}
    (h : r.Reaches env w n (.op (.recordCall word args) k) v) :
    r.Reaches env w (n + 1) (k ()) (v.perform env (.recordCall word args)).2 := by
  refine ⟨?_, fun m => ?_⟩
  · change (v.calls.push (word, args)).size = _
    rw [Array.size_push, h.calls, Nat.add_assoc]
  · rw [Nat.add_right_comm, Nat.add_assoc, h.afterCalls]
    rfl

/-- A routine ends as what is left of it does. -/
theorem Reaches.run {rest : Routine α} (h : r.Reaches env w n rest v) : r.run env w = rest.run env v := by
  rw [← run_afterCalls r (n + 0) w, h.afterCalls, run_afterCalls]

/-- A routine comes to its end at once, and only adds to the calls. -/
def Completes (env : Env) (r : Routine α) (w : World) : Prop :=
  (∃ a, (r.run env w).1 = .finished a) ∧ w.calls.toList <+: (r.run env w).2.calls.toList

/-- A routine that starts with an operation completes if the rest does, provided the operation only adds to the calls. -/
theorem Completes.op {o : Op} {k : o.Reply → Routine α} (hcalls : w.calls.toList <+: (w.perform env o).2.calls.toList)
    (hrest : (k (w.perform env o).1).Completes env (w.perform env o).2) : (Routine.op o k).Completes env w :=
  ⟨hrest.1, hcalls.trans hrest.2⟩

end Routine

namespace World

/-- A primitive is performed by its call: a complaint is raised, an effect is carried out and its result returned. -/
theorem perform_primitive (p : Primitive) (args : List Value) (w : World) :
    w.perform env (.invoke (.primitive p) args) = match p.call w.fresh w.turtle args with
      | .error c => w.complain c
      | .ok e => (.ok e.result, w.carryOut e) := callPrimitive_eq p args w

/-- A primitive records no call. -/
theorem calls_primitive (p : Primitive) (args : List Value) (w : World) :
    (w.perform env (.invoke (.primitive p) args)).2.calls = w.calls := by
  obtain ⟨_, _, _, _, _, _, heq⟩ := callPrimitive_frame p args w
  change (w.callPrimitive p args).2.calls = _
  rw [heq]

end World

/-- What is wrong about the input of a program: an error, and no deliberate stop. -/
def Complaint.Ordinary (c : Complaint) : Prop := c.kind.isError = true ∧ c.kind ≠ .cancellation

/-- What a whole number that is too large complains of is an ordinary fault. -/
theorem intToFloat_ordinary {n : Int} {c : Complaint} (hc : intToFloat n = .error c) : c.Ordinary := by
  unfold intToFloat at hc
  split at hc
  · cases hc
  · cases hc
    exact ⟨rfl, nofun⟩

/-- What a conversion to a double complains of is an ordinary fault. -/
theorem toFloat_ordinary {x : Value} {c : Complaint} (hc : toFloat x = .error c) : c.Ordinary := by
  unfold toFloat at hc
  split at hc
  · cases hc
  · exact intToFloat_ordinary hc
  · cases hc
  · split at hc
    · cases hc
    · cases hc
      exact ⟨rfl, nofun⟩
  · cases hc
    exact ⟨rfl, nofun⟩

/-- What a conversion to a number of the language complains of is an ordinary fault. -/
theorem toNumber_ordinary {x : Value} {c : Complaint} (hc : toNumber x = .error c) : c.Ordinary := by
  unfold toNumber at hc
  split at hc
  · cases hc
    exact ⟨rfl, nofun⟩
  · exact toFloat_ordinary hc

/-- What the conversion of a coordinate complains of is an ordinary fault. -/
theorem Coordinate.toFloat_ordinary {x : Coordinate} {c : Complaint} (hc : x.toFloat = .error c) : c.Ordinary := by
  cases x with
  | whole n => exact intToFloat_ordinary hc
  | real x => cases hc

/-- Two computations in turn complain as one of them does. -/
theorem ordinary_bind {α β : Type} {x : Except Complaint α} {f : α → Except Complaint β} {c : Complaint}
    (hx : ∀ c, x = .error c → c.Ordinary) (hf : ∀ a c, f a = .error c → c.Ordinary)
    (hc : x >>= f = .error c) : c.Ordinary := by
  cases x with
  | error d =>
    cases hc
    exact hx _ rfl
  | ok a => exact hf a c hc

/-- What the conversion to a pair complains of is an ordinary fault. -/
theorem toPair_ordinary {x : Value} {c : Complaint} (hc : toPair x = .error c) : c.Ordinary := by
  unfold toPair at hc
  split at hc
  · exact ordinary_bind (fun _ => toNumber_ordinary) (fun _ _ =>
      ordinary_bind (fun _ => toNumber_ordinary) fun _ _ hok => by cases hok) hc
  · cases hc
    exact ⟨rfl, nofun⟩
  · cases hc
    exact ⟨rfl, nofun⟩
  · cases hc
    exact ⟨rfl, nofun⟩

/-- What a forward move complains of is an ordinary fault. -/
theorem Turtle.forward_ordinary {t : Turtle} {x : Float} {c : Complaint} (hc : t.forward x = .error c) :
    c.Ordinary := by
  unfold Turtle.forward Turtle.advance at hc
  exact ordinary_bind (fun _ h => by cases h) (fun _ _ => ordinary_bind (fun _ => Coordinate.toFloat_ordinary)
    fun _ _ => ordinary_bind (fun _ h => by cases h) fun _ _ => ordinary_bind (fun _ => Coordinate.toFloat_ordinary)
      fun _ _ h => by cases h) hc

/-- A primitive complains of its inputs in an ordinary way. -/
theorem Primitive.call_ordinary {p : Primitive} {fresh : Identity} {t : Turtle} {args : List Value} {c : Complaint}
    (hc : p.call fresh t args = .error c) : c.Ordinary := by
  unfold Primitive.call at hc
  split at hc
  any_goals cases hc; done
  · exact ordinary_bind (fun _ => toPair_ordinary) (fun _ _ h => by cases h) hc
  · exact ordinary_bind (fun _ => toNumber_ordinary) (fun _ _ h => by cases h) hc
  · exact ordinary_bind (fun _ => toNumber_ordinary) (fun _ _ => ordinary_bind (fun _ => Turtle.forward_ordinary)
      fun _ _ h => by cases h) hc
  · exact ordinary_bind (fun _ => toNumber_ordinary) (fun _ _ => ordinary_bind (fun _ => Turtle.forward_ordinary)
      fun _ _ h => by cases h) hc
  · exact ordinary_bind (fun _ => toNumber_ordinary) (fun _ _ h => by cases h) hc
  · exact ordinary_bind (fun _ => toNumber_ordinary) (fun _ _ h => by cases h) hc
  · cases hc
    exact ⟨by rw [Signature.misfit_kind]; rfl, by rw [Signature.misfit_kind]; nofun⟩

/-- What a primitive does and complains of does not depend on the identities that it may give. -/
theorem Primitive.call_fresh (p : Primitive) (fresh fresh' : Identity) (t : Turtle) (args : List Value) :
    (p.call fresh t args).map (fun e => (e.turtle, e.line)) = (p.call fresh' t args).map fun e => (e.turtle, e.line) := by
  unfold Primitive.call
  split <;> rfl

namespace Words

variable {words : Words} {body : LogoList} {c : OpenCall} {cells : List Cell}

/-- All words that are known act on the turtle, or print. -/
def IsPlain (words : Words) : Prop := ∀ word h, words.lookup word = some h → ∃ p, h = .primitive p

/-- The turtle's words are all primitives. -/
theorem turtleWords_plain : turtleWords.IsPlain := by
  intro word h hlookup
  obtain ⟨before, after, heq, -⟩ := List.lookup_eq_some_iff.1 hlookup
  have hmem : (word, h) ∈ turtleWords := by
    rw [heq]
    simp
  obtain ⟨⟨key, p⟩, -, hentry⟩ := List.mem_map.1 hmem
  cases hentry
  exact ⟨p, rfl⟩

/-- What is left of a program of words where it looks at the next cell. -/
def remaining (words : Words) (gated : Bool) (body : LogoList) (open_ : Option OpenCall) (cells : List Cell) :
    Routine (Except FaultId Value) :=
  (do walk words gated body open_ cells; return .none : Work Value).run

/-- What is left where the handler of a call is to be invoked. -/
def invoking (words : Words) (gated : Bool) (body : LogoList) (c : OpenCall) (cells : List Cell) :
    Routine (Except FaultId Value) :=
  .op (.invoke c.handler c.args) fun
    | .ok _ => remaining words gated body none cells
    | .error fault => .done (.error fault)

/-- What is left where a call is to be recorded, behind its call boundary if there is one. -/
def recording (words : Words) (gated : Bool) (body : LogoList) (c : OpenCall) (cells : List Cell) :
    Routine (Except FaultId Value) :=
  .op (.recordCall c.word c.args) fun _ => invoking words gated body c cells

/-- What a gated program goes on with after the call boundary of a call. -/
def passed (words : Words) (body : LogoList) (c : OpenCall) (cells : List Cell) :
    Except FaultId Value → Routine (Except FaultId Value)
  | .ok _ => recording words true body c cells
  | .error fault => .done (.error fault)

/-- What is left of a gated program where a call boundary is to be made. -/
def announcing (words : Words) (body : LogoList) (c : OpenCall) (cells : List Cell) :
    Routine (Except FaultId Value) :=
  .op (.hook { func := c.handler.procedure, args := .sequence 0 c.args, body := .list body,
               cell := .list (listAt c.cell) }) fun
    | .ok step => .await (some step.future) (passed words body c cells)
    | .error fault => .done (.error fault)

/-- An evaluation makes the body of its source, and walks its cells from the first. -/
theorem run_evaluate (words : Words) (gated : Bool) (source : String) :
    (evaluate words gated source).run =
      .op (.newBody (Text.words source)) fun list => remaining words gated list none (LogoList.cells list) := rfl

/-- A gated call and the rest of its program stand behind a call boundary. -/
theorem call_gated (words : Words) (body : LogoList) (c : OpenCall) (cells : List Cell) :
    (do
      (do callHandler true body c; walk words true body none cells)
      return .none : Work Value).run = announcing words body c cells := by
  refine congrArg (Routine.op _) (funext fun reply => ?_)
  cases reply with
  | error fault => rfl
  | ok step =>
    refine congrArg (Routine.await _) (funext fun received => ?_)
    cases received with
    | error fault => rfl
    | ok x =>
      refine congrArg (Routine.op _) (funext fun _ => congrArg (Routine.op _) (funext fun reply => ?_))
      cases reply <;> rfl

theorem call_direct (words : Words) (body : LogoList) (c : OpenCall) (cells : List Cell) :
    (do
      (do callHandler false body c; walk words false body none cells)
      return .none : Work Value).run = recording words false body c cells := by
  refine congrArg (Routine.op _) (funext fun _ => congrArg (Routine.op _) (funext fun reply => ?_))
  cases reply <;> rfl

/-- What a program of words does next, with call boundaries or without: it ends, fails, or calls a word. -/
inductive Continues (words : Words) (body : LogoList) (open_ : Option OpenCall) (cells : List Cell) : Prop
  | ends (hends : ∀ gated, remaining words gated body open_ cells = .done (.ok .none))
  | fails (c : Complaint) (hc : c.Ordinary) (hfails : ∀ gated, remaining words gated body open_ cells =
      .op (.raise (.plain c)) fun fault => .done (.error fault))
  | calls (c : OpenCall) (rest : List Cell) (hlt : rest.length < cells.length) (hc : ∃ p, c.handler = .primitive p)
      (hdirect : remaining words false body open_ cells = recording words false body c rest)
      (hgated : remaining words true body open_ cells = announcing words body c rest)

/-- A walk that fails at once raises its complaint and ends with it. -/
theorem remaining_of_fail {gated : Bool} {open_ : Option OpenCall} {e : Complaint}
    (hwalk : walk words gated body open_ cells = Work.fail (.plain e)) :
    remaining words gated body open_ cells = .op (.raise (.plain e)) fun fault => .done (.error fault) := by
  rw [remaining, hwalk]
  rfl

/-- A walk that fails at once with a fault of the language, gated or not, goes on as described. -/
theorem continues_of_fail {open_ : Option OpenCall} {e : Complaint} (hkind : e.kind = .logo)
    (hwalk : ∀ gated, walk words gated body open_ cells = Work.fail (.plain e)) : Continues words body open_ cells := by
  refine .fails e ?_ fun gated => remaining_of_fail (hwalk gated)
  rw [Complaint.Ordinary, hkind]
  exact ⟨rfl, nofun⟩

/-- A walk that calls a primitive and goes on with fewer cells, gated or not, goes on as described. -/
theorem continues_of_call {open_ : Option OpenCall} {rest : List Cell} (hlt : rest.length < cells.length)
    (hc : ∃ p, c.handler = .primitive p)
    (hwalk : ∀ gated, walk words gated body open_ cells =
      (do callHandler gated body c; walk words gated body none rest : Work Unit)) : Continues words body open_ cells := by
  refine .calls c rest hlt hc ?_ ?_
  · rw [remaining, hwalk]
    exact call_direct words body c rest
  · rw [remaining, hwalk]
    exact call_gated words body c rest

/-- A cell may open a call, or be an argument of the one that is open. -/
theorem Continues.behind {open_ next : Option OpenCall} {cell : Cell} {rest : List Cell} (h : Continues words body next rest)
    (hsame : ∀ gated, walk words gated body open_ (cell :: rest) = walk words gated body next rest) :
    Continues words body open_ (cell :: rest) := by
  have hleft (gated : Bool) : remaining words gated body open_ (cell :: rest) = remaining words gated body next rest := by
    rw [remaining, remaining, hsame]
  cases h with
  | ends hends => exact .ends fun gated => (hleft gated).trans (hends gated)
  | fails c hc hfails => exact .fails c hc fun gated => (hleft gated).trans (hfails gated)
  | calls c later hlt hc hdirect hgated =>
    exact .calls c later (Nat.lt_succ_of_lt hlt) hc ((hleft false).trans hdirect) ((hleft true).trans hgated)

/-- A walk over plain words ends, fails with a fault of the language, or calls a primitive and goes on with fewer cells. -/
theorem remaining_cases (hwords : words.IsPlain) (body : LogoList) (cells : List Cell) {open_ : Option OpenCall}
    (hopen : ∀ c, open_ = some c → ∃ p, c.handler = .primitive p) : Continues words body open_ cells := by
  induction cells generalizing open_ with
  | nil =>
    cases open_ with
    | none => exact .ends fun _ => rfl
    | some c => exact continues_of_fail (e := ⟨.logo, _⟩) rfl fun _ => rfl
  | cons cell rest ih =>
    cases open_ with
    | none =>
      cases hlookup : words.lookup cell.head.display with
      | none => exact continues_of_fail (e := ⟨.logo, _⟩) rfl fun gated => by simp only [walk, hlookup]; rfl
      | some h =>
        have hprimitive := hwords _ h hlookup
        by_cases hmissing : h.arity = 0
        · refine continues_of_call (c := ⟨cell.head.display, h, cell, [], h.arity⟩) (Nat.lt_succ_self _) hprimitive
            fun gated => ?_
          simp only [walk, hlookup]
          exact if_pos hmissing
        · refine (@ih (some ⟨cell.head.display, h, cell, [], h.arity⟩) (by rintro c ⟨⟩; exact hprimitive)).behind
            fun gated => ?_
          simp only [walk, hlookup, if_neg hmissing]
    | some c =>
      have hprimitive := hopen c rfl
      by_cases hmissing : c.missing - 1 = 0
      · exact continues_of_call (c := { c with args := c.args ++ [cell.head], missing := c.missing - 1 })
          (Nat.lt_succ_self _)
          hprimitive fun gated => if_pos hmissing
      · refine (@ih (some { c with args := c.args ++ [cell.head], missing := c.missing - 1 })
          (by rintro d ⟨⟩; exact hprimitive)).behind fun gated => ?_
        simp only [walk, if_neg hmissing]

/-- Recording and calling a primitive without the gate completes if the walk over the rest does. -/
theorem completes_recording (hc : ∃ p, c.handler = .primitive p)
    (hrest : ∀ v, (remaining words false body none cells).Completes env v) (w : World) :
    (recording words false body c cells).Completes env w := by
  have hcalled : w.calls.toList <+: (w.perform env (.recordCall c.word c.args)).2.calls.toList := by
    change _ <+: (w.calls.push (c.word, c.args)).toList
    rw [Array.toList_push]
    exact List.prefix_append _ _
  obtain ⟨p, hp⟩ := hc
  refine Routine.Completes.op hcalled (Routine.Completes.op ?_ ?_)
  · rw [hp]
    exact (World.calls_primitive p c.args _).symm ▸ List.prefix_refl _
  · split
    · exact hrest _
    · exact ⟨⟨_, rfl⟩, List.prefix_refl _⟩

/-- Without its call boundaries, a program of words comes to its end at once. -/
theorem completes_remaining (hwords : words.IsPlain) (body : LogoList) (cells : List Cell) {open_ : Option OpenCall}
    (hopen : ∀ c, open_ = some c → ∃ p, c.handler = .primitive p) (w : World) :
    (remaining words false body open_ cells).Completes env w := by
  induction hlength : cells.length using Nat.strongRecOn generalizing cells open_ w with
  | ind n ih =>
    obtain hdone | ⟨c, -, hraise⟩ | ⟨c, rest, hlt, hc, hdirect, -⟩ := remaining_cases hwords body cells hopen
    · rw [hdone]
      exact ⟨⟨_, rfl⟩, List.prefix_refl _⟩
    · rw [hraise]
      exact ⟨⟨_, rfl⟩, List.prefix_refl _⟩
    · have hrest (v : World) : (remaining words false body none rest).Completes env v :=
        ih rest.length (hlength ▸ hlt) rest (fun _ h => by cases h) v rfl
      rw [hdirect]
      exact completes_recording hc hrest w

end Words

end SteppedLogo
