import SteppedLogo.Proofs.Program.Direct

namespace SteppedLogo

/-- The list that a text makes, word by word, its cells numbered from `fresh` on. -/
def LogoList.ofWords (fresh : Identity) (texts : List String) : LogoList := .ofList fresh (texts.map fun text => .text text)

/-- A call that the words of a program lead to: the word that is called, its place among all words, and the words
that it takes. -/
structure PlannedCall where
  place : Nat
  word : String
  handler : Handler
  inputs : List String
  deriving DecidableEq

namespace PlannedCall

def args (c : PlannedCall) : List Value := c.inputs.map fun text => .text text

/-- What is recorded once the call is made. -/
def entry (c : PlannedCall) : String × List Value := (c.word, c.args)

/-- The call as it comes about in the list whose cells are numbered from `fresh` on, with the words `behind` its own. -/
def opened (c : PlannedCall) (fresh : Identity) (behind : List String) : OpenCall where
  word := c.word
  handler := c.handler
  cell := ⟨fresh + c.place, .text c.word, .ofWords (fresh + c.place + 1) behind⟩
  args := c.args
  missing := 0

end PlannedCall

namespace LogoList

variable {fresh : Identity} {texts behind : List String} {place : Nat} {word : String}

theorem length_cells_ofWords (fresh : Identity) (texts : List String) :
    (ofWords fresh texts).cells.length = texts.length := by
  have hheads := congrArg List.length (cells_map_head (ofWords fresh texts))
  rw [ofWords, items_ofList] at hheads
  simpa [ofWords] using hheads

theorem heads_ofWords (fresh : Identity) (texts : List String) :
    (ofWords fresh texts).cells.map Cell.head = texts.map fun text => .text text := by
  rw [cells_map_head, ofWords, items_ofList]

/-- The cells from some place on are those of the words from there on. -/
theorem drop_cells_ofWords (fresh : Identity) (texts : List String) (n : Nat) :
    (ofWords fresh texts).cells.drop n = (ofWords (fresh + n) (texts.drop n)).cells := by
  induction n generalizing fresh texts with
  | zero => rfl
  | succ n ih =>
    cases texts with
    | nil => rfl
    | cons text rest =>
      have hrest := ih (fresh + 1) rest
      rw [Nat.add_assoc, Nat.add_comm 1 n] at hrest
      exact hrest

theorem cellOf_ofWords (hplace : texts.drop place = word :: behind) :
    (Value.list (ofWords fresh texts)).cellOf place =
      .list (Words.listAt ⟨fresh + place, .text word, ofWords (fresh + place + 1) behind⟩) := by
  have hget : (ofWords fresh texts).cells[place]? =
      some ⟨fresh + place, .text word, ofWords (fresh + place + 1) behind⟩ := by
    rw [← List.head?_drop, drop_cells_ofWords, hplace]
    rfl
  simp only [Value.cellOf, hget]
  rfl

end LogoList

namespace Words

/-- The calls that words lead to which stand from `place` on, the first `skip` of them being passed over. They end
with the words, or with a word that is not known or takes more words than there are. -/
def planned (words : Words) : (place skip : Nat) → List String → List PlannedCall
  | _, _, [] => []
  | place, skip + 1, _ :: rest => planned words (place + 1) skip rest
  | place, 0, word :: rest =>
    match words.lookup word with
    | none => []
    | some handler =>
      if handler.arity ≤ rest.length then
        ⟨place, word, handler, rest.take handler.arity⟩ :: planned words (place + 1) handler.arity rest
      else []

theorem planned_skip (words : Words) (place skip : Nat) (rest : List String) :
    planned words place skip rest = planned words (place + skip) 0 (rest.drop skip) := by
  induction skip generalizing place rest with
  | zero => rfl
  | succ skip ih =>
    cases rest with
    | nil => simp [planned]
    | cons word rest =>
      rw [planned, ih, List.drop_succ_cons, Nat.add_assoc, Nat.add_comm 1 skip]

/-- An open call takes the inputs that are missing, and is made; or there are too few. -/
theorem walk_open (words : Words) (gated : Bool) (body : LogoList) (cells : List Cell) {c : OpenCall}
    (hmissing : 0 < c.missing) :
    walk words gated body (some c) cells =
      if c.missing ≤ cells.length then (do
        callHandler gated body { c with args := c.args ++ (cells.take c.missing).map Cell.head, missing := 0 }
        walk words gated body none (cells.drop c.missing))
      else Work.fail (missingInputs c.word) := by
  induction cells generalizing c with
  | nil =>
    rw [walk, if_neg]
    simp
    omega
  | cons cell rest ih =>
    obtain ⟨n, hn⟩ : ∃ n, c.missing = n + 1 := ⟨c.missing - 1, by omega⟩
    rw [walk]
    simp only [hn, Nat.add_sub_cancel, List.length_cons, Nat.add_le_add_iff_right, List.take_succ_cons, List.map_cons,
      List.drop_succ_cons]
    by_cases hlast : n = 0
    · subst hlast
      simp
    · rw [if_neg hlast, ih (Nat.pos_of_ne_zero hlast)]
      simp only [List.append_assoc, List.singleton_append]

/-- What is wrong with words that no call comes of, if anything is. -/
def flaw? (words : Words) : List String → Option Complaint
  | [] => none
  | word :: _ =>
    match words.lookup word with
    | none => some ⟨.logo, [.text ("I don't know how to " ++ word)]⟩
    | some _ => some ⟨.logo, [.text ("not enough inputs to " ++ word)]⟩

/-- A word that is known is called with the words behind it, or there are too few of those. -/
theorem walk_known (words : Words) (body : LogoList) (fresh : Identity) (place : Nat) {word : String}
    (behind : List String) {handler : Handler} (hlookup : words.lookup word = some handler) :
    walk words true body none (LogoList.ofWords (fresh + place) (word :: behind)).cells =
      if handler.arity ≤ behind.length then (do
        callHandler true body ((⟨place, word, handler, behind.take handler.arity⟩ : PlannedCall).opened fresh behind)
        walk words true body none
          (LogoList.ofWords (fresh + (place + 1 + handler.arity)) (behind.drop handler.arity)).cells)
      else Work.fail (missingInputs word) := by
  have hcells : (LogoList.ofWords (fresh + place) (word :: behind)).cells =
      ⟨fresh + place, .text word, .ofWords (fresh + place + 1) behind⟩ ::
        (LogoList.ofWords (fresh + place + 1) behind).cells := rfl
  have hword : (Value.text word).display = word := rfl
  have hrest := LogoList.drop_cells_ofWords (fresh + place + 1) behind handler.arity
  have hheads := LogoList.heads_ofWords (fresh + place + 1) behind
  rw [hcells, walk]
  simp only [hword, hlookup]
  by_cases hzero : handler.arity = 0
  · rw [if_pos hzero, hzero, if_pos (Nat.zero_le _)]
    rfl
  · rw [if_neg hzero, walk_open words true body _ (Nat.pos_of_ne_zero hzero), LogoList.length_cells_ofWords, hrest,
      List.map_take, hheads, ← List.map_take, List.nil_append]
    simp only [Nat.add_assoc]
    rfl

/-- What a gated program of words does next, at the words from some place on: no call is planned any more, and it
ends or fails; or the next call that is planned is announced. -/
theorem remaining_planned (words : Words) (body : LogoList) (fresh : Identity) (place : Nat) (rest : List String) :
    (planned words place 0 rest = [] ∧
      ((flaw? words rest = none ∧
          remaining words true body none (LogoList.ofWords (fresh + place) rest).cells = .done (.ok .none)) ∨
        ∃ c : Complaint, c.Ordinary ∧ flaw? words rest = some c ∧
          remaining words true body none (LogoList.ofWords (fresh + place) rest).cells =
            .op (.raise (.plain c)) fun fault => .done (.error fault))) ∨
    ∃ (c : PlannedCall) (behind : List String), rest = c.word :: behind ∧ c.place = place ∧
      words.lookup c.word = some c.handler ∧
      planned words place 0 rest = c :: planned words (place + 1 + c.handler.arity) 0 (behind.drop c.handler.arity) ∧
      remaining words true body none (LogoList.ofWords (fresh + place) rest).cells =
        announcing words body (c.opened fresh behind)
          (LogoList.ofWords (fresh + (place + 1 + c.handler.arity)) (behind.drop c.handler.arity)).cells := by
  have hfail (text : String) (hflaw : flaw? words rest = some ⟨.logo, [.text text]⟩)
      (hwalk : walk words true body none (LogoList.ofWords (fresh + place) rest).cells =
        Work.fail (.plain ⟨.logo, [.text text]⟩)) :
      ∃ c : Complaint, c.Ordinary ∧ flaw? words rest = some c ∧
        remaining words true body none (LogoList.ofWords (fresh + place) rest).cells =
          .op (.raise (.plain c)) fun fault => .done (.error fault) :=
    ⟨⟨.logo, [.text text]⟩, ⟨rfl, nofun⟩, hflaw, remaining_of_fail hwalk⟩
  cases rest with
  | nil => exact .inl ⟨rfl, .inl ⟨rfl, rfl⟩⟩
  | cons word behind =>
    cases hlookup : words.lookup word with
    | none =>
      refine .inl ⟨by rw [planned, hlookup], .inr (hfail ("I don't know how to " ++ word) (by rw [flaw?, hlookup]) ?_)⟩
      have hword : (Value.text word).display = word := rfl
      change walk words true body none (⟨fresh + place, .text word, _⟩ :: _) = _
      rw [walk]
      simp only [hword, hlookup]
      rfl
    | some handler =>
      have hwalk := walk_known words body fresh place behind hlookup
      by_cases henough : handler.arity ≤ behind.length
      · refine .inr ⟨⟨place, word, handler, behind.take handler.arity⟩, behind, rfl, rfl, hlookup, ?_, ?_⟩
        · rw [planned, hlookup]
          simp only [if_pos henough]
          rw [planned_skip]
        · rw [remaining, hwalk, if_pos henough]
          exact call_gated words body _ _
      · refine .inl ⟨?_, .inr (hfail ("not enough inputs to " ++ word) (by rw [flaw?, hlookup])
          (by rw [hwalk, if_neg henough]; rfl))⟩
        rw [planned, hlookup]
        simp only [if_neg henough]

set_option maxRecDepth 1024 in
/-- The calls of a program of words, in the order in which it comes to them. -/
example : (planned turtleWords 0 0 ["fd", "50", "rt", "90", "print"]).map (fun c => (c.place, c.inputs)) =
    [(0, ["50"]), (2, ["90"])] := by decide

end Words

end SteppedLogo

namespace SteppedLogo

namespace PlannedCall

variable {c : PlannedCall} {p : Primitive} {fresh : Identity} {t : Turtle} {e : Effect} {why : Complaint}

/-- What a call makes of the turtle, or why it is refused. -/
def act (c : PlannedCall) (t : Turtle) : Except Complaint Turtle :=
  match c.handler with
  | .primitive p => (p.call 0 t c.args).map Effect.turtle
  | _ => .ok t

theorem act_primitive (hp : c.handler = .primitive p) (fresh : Identity) :
    c.act t = (p.call fresh t c.args).map Effect.turtle := by
  have hturtle (x : Except Complaint Effect) :
      x.map Effect.turtle = (x.map fun e => (e.turtle, e.line)).map Prod.fst := by
    cases x <;> rfl
  rw [act, hp]
  dsimp only
  rw [hturtle, p.call_fresh 0 fresh, ← hturtle]

theorem act_of_ok (hp : c.handler = .primitive p) (h : p.call fresh t c.args = .ok e) : c.act t = .ok e.turtle := by
  rw [act_primitive hp fresh, h]
  rfl

theorem act_of_error (hp : c.handler = .primitive p) (h : p.call fresh t c.args = .error why) :
    c.act t = .error why := by
  rw [act_primitive hp fresh, h]
  rfl

end PlannedCall

namespace Words

/-- Makes the calls that words lead to which stand from `place` on, the first `skip` of them being passed over: the calls
that are made, and what is wrong in the end. A call that is refused is the last one. -/
def enacted (words : Words) : (t : Turtle) → (place skip : Nat) → List String → List PlannedCall × Option Complaint
  | _, _, _, [] => ([], none)
  | t, place, skip + 1, _ :: rest => enacted words t (place + 1) skip rest
  | t, place, 0, word :: rest =>
    match words.lookup word with
    | none => ([], words.flaw? (word :: rest))
    | some handler =>
      if handler.arity ≤ rest.length then
        let c : PlannedCall := ⟨place, word, handler, rest.take handler.arity⟩
        match c.act t with
        | .error why => ([c], some why)
        | .ok t => (enacted words t (place + 1) handler.arity rest).map (c :: ·) id
      else ([], words.flaw? (word :: rest))

variable {words : Words} {t : Turtle} {place : Nat} {c : PlannedCall} {rest behind : List String} {later : List PlannedCall}

theorem enacted_skip (words : Words) (t : Turtle) (place skip : Nat) (rest : List String) :
    enacted words t place skip rest = enacted words t (place + skip) 0 (rest.drop skip) := by
  induction skip generalizing place rest with
  | zero => rfl
  | succ skip ih =>
    cases rest with
    | nil => simp [enacted]
    | cons word rest =>
      rw [enacted, ih, List.drop_succ_cons, Nat.add_assoc, Nat.add_comm 1 skip]

/-- Where no call is planned none is made. -/
theorem enacted_of_planned_nil (h : planned words place 0 rest = []) :
    enacted words t place 0 rest = ([], words.flaw? rest) := by
  cases rest with
  | nil => rfl
  | cons word rest =>
    rw [planned] at h
    rw [enacted]
    cases hlookup : words.lookup word with
    | none => rfl
    | some handler =>
      simp only [hlookup] at h ⊢
      by_cases henough : handler.arity ≤ rest.length
      · rw [if_pos henough] at h
        cases h
      · rw [if_neg henough]

/-- What is left of a program at a call, and at the words behind it. -/
def enactedFrom (words : Words) (t : Turtle) (c : PlannedCall) (behind : List String) :
    List PlannedCall × Option Complaint :=
  match c.act t with
  | .error why => ([c], some why)
  | .ok t => (enacted words t (c.place + 1 + c.handler.arity) 0 (behind.drop c.handler.arity)).map (c :: ·) id

theorem enactedFrom_of_error {why : Complaint} (h : c.act t = .error why) :
    words.enactedFrom t c behind = ([c], some why) := by
  rw [enactedFrom, h]

theorem enactedFrom_of_ok {u : Turtle} (h : c.act t = .ok u) : words.enactedFrom t c behind =
    (words.enacted u (c.place + 1 + c.handler.arity) 0 (behind.drop c.handler.arity)).map (c :: ·) id := by
  rw [enactedFrom, h]

/-- The call that is planned first is made first. -/
theorem enacted_of_planned_cons (hlookup : words.lookup c.word = some c.handler)
    (h : planned words c.place 0 (c.word :: behind) = c :: later) :
    enacted words t c.place 0 (c.word :: behind) = enactedFrom words t c behind := by
  simp only [planned, hlookup] at h
  split at h
  · next henough =>
    obtain ⟨hcall, -⟩ := List.cons.inj h
    simp only [enacted, hlookup, if_pos henough, hcall, enacted_skip words _ (c.place + 1)]
    rfl
  · cases h

/-- The calls that a program makes with a turtle, and what is wrong in the end. -/
def made (words : Words) (t : Turtle) (source : String) : List PlannedCall × Option Complaint :=
  enacted words t 0 0 (Text.words source)

set_option maxRecDepth 1024 in
/-- The calls end with the one that is refused, and with the words. -/
example : (enacted turtleWords {} 0 0 ["fd", "50", "rt", "x", "pu"]).1.map PlannedCall.place = [0, 2] ∧
    (enacted turtleWords {} 0 0 ["pu", "pd"]).2.isNone = true := by decide

end Words

end SteppedLogo
