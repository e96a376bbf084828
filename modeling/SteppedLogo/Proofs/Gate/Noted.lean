import SteppedLogo.Proofs.Gate.Ledger

namespace SteppedLogo

/-- Runs code as `Code.run` does, and notes what its operations do. -/
def Code.runNoted {α : Type} (perform : (o : Op) → World → (o.Reply × World) × List Notice) :
    Code α → World → (α × World) × List Notice
  | done a, w => ((a, w), [])
  | op o k, w =>
    let (answer, first) := perform o w
    let (result, rest) := (k answer.1).runNoted perform answer.2
    (result, first ++ rest)

namespace World

variable {env : Env} {u v w : World} {log more : List Notice} {level : Nat}

/-- What telling a listener of a step answers, with what is noted meanwhile. -/
abbrev Hear := StepEvent → String → World → (Except FaultId Unit × World) × List Notice

/-- Has one listener told of a step after another, as `tellEach` does. -/
def tellNoted (level : Nat) (hear : String → World → (Except FaultId Unit × World) × List Notice) (event : StepEvent) :
    List String → World → (Except FaultId Unit × World) × List Notice
  | [], w => ((.ok (), w), [])
  | name :: names, w =>
    match hear name w with
    | ((.ok (), w), during) =>
      let (answer, rest) := tellNoted level hear event names w
      (answer, .told level name event :: during ++ rest)
    | ((.error fault, w), during) =>
      if (w.faults.kindOf fault).isError then
        let (answer, rest) := tellNoted level hear event names (w.logFault gateLogger listenerFailed fault)
        (answer, .told level name event :: during ++ .failed level name (w.faults.kindOf fault) :: rest)
      else ((.error fault, w), .told level name event :: during)

/-- A listener is told of a step while `perform` performs its operations. -/
def hearNoted (env : Env) (perform : (o : Op) → World → (o.Reply × World) × List Notice) : Hear :=
  fun event name w => (env.react name event).run.runNoted perform w

/-- A listener that is told at the limit of nesting fails at once. -/
def hearNone : Hear := fun _ _ w => (w.complain tooDeep, [])

/-- Announces a step as `announceStep` does. -/
def announceNoted (level : Nat) (hear : Hear) (call : Call) (w : World) : (Except FaultId Unit × World) × List Notice :=
  match w.gate.pending with
  | some id => (w.complain (stillPending (((w.pacedStep? id).map PacedStep.seq).getD 0)), [])
  | none =>
    let w := w.modifyGate fun g => { g with seq := g.seq + 1 }
    let w := w.showCall call
    match call.args.items with
    | .error c => (w.complain c, [.lost])
    | .ok args =>
      let event := ⟨w.gate.seq, callName call.func, args, call.cell⟩
      match tellNoted level (hear event) event w.gate.listeners w with
      | ((.ok (), w), log) => ((.ok (), w), .begins level event :: log)
      | ((.error fault, w), log) =>
        ((.error fault, w), .begins level event :: (log ++ [.stopped level (w.faults.kindOf fault)]))

/-- Sets up the step that has been announced as `install` does. -/
def installNoted (level : Nat) (install : World → Step × World) :
    (Except FaultId Unit × World) × List Notice → (Except FaultId Step × World) × List Notice
  | ((.error fault, w), log) => ((.error fault, w), log)
  | ((.ok (), w), log) =>
    let (step, w) := install w
    ((.ok step, w), log ++ [.created level step.id])

/-- Performs an operation as `performWith` does; `hear` has a listener told of a step. -/
def performNotedWith (env : Env) (level : Nat) (hear : Hear) (o : Op) (w : World) : (o.Reply × World) × List Notice :=
  match o with
  | .hook call =>
    installNoted level (installFor w.session.current)
      (w.announceNoted level hear (if w.session.traceOn then call else { call with body := .none }))
  | .step call => installNoted level installStep (w.announceNoted level hear call)
  | o => (performWith env (fun _ w => (.ok (), w)) o w, o.notices w)

/-- Performs an operation as `performWithin` does. -/
def performNotedWithin (env : Env) : (depth : Nat) → (o : Op) → World → (o.Reply × World) × List Notice
  | 0, o, w => performNotedWith env 0 hearNone o w
  | depth + 1, o, w => performNotedWith env (depth + 1) (hearNoted env (performNotedWithin env depth)) o w

def performNoted (env : Env) (o : Op) (w : World) : (o.Reply × World) × List Notice :=
  performNotedWithin env nesting o w

/-- Without its notices the noted delivery is the delivery to the same listeners. -/
theorem tellNoted_fst (level : Nat) (hear : String → World → (Except FaultId Unit × World) × List Notice)
    (event : StepEvent) (names : List String) (w : World) :
    (tellNoted level hear event names w).1 = tellEach (fun name w => (hear name w).1) names w := by
  induction names generalizing w with
  | nil => rfl
  | cons name names ih =>
    unfold tellNoted tellEach
    obtain ⟨⟨told, v⟩, during⟩ := hear name w
    cases told with
    | ok => exact ih v
    | error fault =>
      dsimp only
      split
      · exact ih _
      · rfl

/-- Without its notices the noted run of code is its run, provided that holds of every operation. -/
theorem runNoted_fst {α : Type} {performNoted : (o : Op) → World → (o.Reply × World) × List Notice}
    {perform : (o : Op) → World → o.Reply × World} (hperform : ∀ o w, (performNoted o w).1 = perform o w)
    (c : Code α) (w : World) : (c.runNoted performNoted w).1 = c.run perform w := by
  induction c generalizing w with
  | done a => rfl
  | op o k ih =>
    simp only [Code.run, ← hperform]
    exact ih _ _

/-- Without its notices the noted announcement of a call is its announcement. -/
theorem announceNoted_fst {notify : Notify} {hear : Hear}
    (hhear : ∀ event w, tellEach (fun name w => (hear event name w).1) w.gate.listeners w = notify event w)
    (call : Call) (w : World) : (w.announceNoted level hear call).1 = w.announceStep notify call := by
  unfold announceNoted announceStep
  cases w.gate.pending with
  | some id => rfl
  | none =>
    cases call.args.items with
    | error c => rfl
    | ok args =>
      dsimp only
      rw [← hhear, ← tellNoted_fst level]
      split <;> next heq => rw [heq]

/-- Without its notices the noted set-up is the set-up, left out where the announcement failed. -/
theorem installNoted_fst (level : Nat) (install : World → Step × World)
    (announced : (Except FaultId Unit × World) × List Notice) : (installNoted level install announced).1 =
      match announced.1 with
      | (.error fault, w) => (.error fault, w)
      | (.ok (), w) => (.ok (install w).1, (install w).2) := by
  obtain ⟨⟨_ | _, w⟩, log⟩ := announced <;> rfl

/-- Without its notices a noted operation is the operation, provided the listeners hear the same. -/
theorem performNotedWith_fst (notify : Notify) {hear : Hear}
    (hhear : ∀ event w, tellEach (fun name w => (hear event name w).1) w.gate.listeners w = notify event w)
    (o : Op) (w : World) : (performNotedWith env level hear o w).1 = performWith env notify o w := by
  cases o with
  | hook call =>
    refine (installNoted_fst level _ _).trans ?_
    rw [announceNoted_fst hhear]
    rfl
  | step call =>
    refine (installNoted_fst level _ _).trans ?_
    rw [announceNoted_fst hhear]
    rfl
  | defer delay deed => cases delay <;> rfl
  | _ => rfl

/-- An operation does the same whether or not it is noted what it does. -/
theorem performNotedWithin_fst (env : Env) (depth : Nat) (o : Op) (w : World) :
    (performNotedWithin env depth o w).1 = performWithin env depth o w := by
  induction depth generalizing o w with
  | zero => exact performNotedWith_fst notifyNone (fun _ _ => rfl) o w
  | succ depth ih =>
    refine performNotedWith_fst (notifyWith env (performWithin env depth)) (fun event v => ?_) o w
    simp only [hearNoted, runNoted_fst ih]
    rfl

/-- Without its notices a noted operation of the bridge is the operation itself. -/
theorem performNoted_fst (env : Env) (o : Op) (w : World) : (performNoted env o w).1 = w.perform env o :=
  performNotedWithin_fst env nesting o w

/-- The notices tell rightly what has happened to the gate between two states: of each step that is set up listeners
have begun to be told, and each of which they have is set up unless one of them stops that. -/
structure Accounts (w : World) (log : List Notice) (v : World) : Prop where
  admits : w.ledger.Admits log
  ledger : v.ledger = w.ledger.reads log
  balanced : log.countP Notice.isBegins = log.countP Notice.isCreated + log.countP Notice.isStopped

/-- Two logs that account for two changes account together for both. -/
theorem Accounts.append (huv : u.Accounts log v) (hvw : v.Accounts more w) : u.Accounts (log ++ more) w := by
  refine ⟨huv.admits.append (huv.ledger ▸ hvw.admits), ?_, ?_⟩
  · rw [Ledger.reads_append, ← huv.ledger, hvw.ledger]
  · rw [List.countP_append, List.countP_append, List.countP_append, huv.balanced, hvw.balanced]
    omega

/-- An empty log accounts for a change that leaves the ledger as it was. -/
theorem accounts_nil (h : v.ledger = w.ledger) : w.Accounts [] v := ⟨trivial, h, rfl⟩

/-- An operation of its own notes a listener added, a listener removed, or a count begun anew. -/
theorem mem_notices {o : Op} {n : Notice} (hn : n ∈ o.notices w) :
    (∃ name, n = .added name) ∨ (∃ name, n = .removed name) ∨ n = .reset := by
  have hreset (hn : n ∈ if w.session.isActive then [] else [Notice.reset]) : n = .reset := by
    split at hn
    · cases hn
    · exact List.mem_singleton.1 hn
  unfold Op.notices at hn
  split at hn
  · exact .inl ⟨_, List.mem_singleton.1 hn⟩
  · exact .inr (.inl ⟨_, List.mem_singleton.1 hn⟩)
  · exact .inr (.inr (List.mem_singleton.1 hn))
  · exact .inr (.inr (hreset hn))
  · exact .inr (.inr (hreset hn))
  · cases hn

/-- Notices that are about no step may come anywhere. -/
theorem accounts_of_aside
    (haside : ∀ n ∈ log, (∃ name, n = .added name) ∨ (∃ name, n = .removed name) ∨ n = .reset)
    (hledger : v.ledger = w.ledger.reads log) : w.Accounts log v := by
  have hcount (p : Notice → Bool) (hp : ∀ name, p (.added name) = false ∧ p (.removed name) = false)
      (hreset : p .reset = false) : log.countP p = 0 := by
    refine List.countP_eq_zero.2 fun n hn => Bool.not_eq_true _ ▸ ?_
    obtain ⟨name, rfl⟩ | ⟨name, rfl⟩ | rfl := haside n hn
    · exact (hp name).1
    · exact (hp name).2
    · exact hreset
  refine ⟨?_, hledger, ?_⟩
  · generalize w.ledger = l
    clear hledger hcount
    induction log generalizing l with
    | nil => trivial
    | cons n rest ih =>
      refine ⟨?_, ih (fun m hm => haside m (List.mem_cons_of_mem n hm)) _⟩
      obtain ⟨name, rfl⟩ | ⟨name, rfl⟩ | rfl := haside n List.mem_cons_self <;> trivial
  · rw [hcount Notice.isBegins (fun _ => ⟨rfl, rfl⟩) rfl, hcount Notice.isCreated (fun _ => ⟨rfl, rfl⟩) rfl,
      hcount Notice.isStopped (fun _ => ⟨rfl, rfl⟩) rfl]

/-- The notices of an operation that makes no call boundary. -/
theorem accounts_notices {o : Op} (hledger : v.ledger = w.ledger.reads (o.notices w)) : w.Accounts (o.notices w) v :=
  accounts_of_aside (fun _ hn => mem_notices hn) hledger

/-- What an operation notes of its own is at no level of delivery. -/
theorem notices_isBelow (o : Op) (w : World) (level : Nat) : ∀ n ∈ o.notices w, n.IsBelow level := by
  intro n hn
  obtain ⟨name, rfl⟩ | ⟨name, rfl⟩ | rfl := mem_notices hn <;> trivial

/-- What a listener may do that is told at a level: what is noted of it is true, and comes from below the level. -/
def Hears (level : Nat) (hear : String → World → (Except FaultId Unit × World) × List Notice) : Prop :=
  ∀ name w, w.Accounts (hear name w).2 (hear name w).1.2 ∧ ∀ n ∈ (hear name w).2, n.IsBelow level

/-- How far a step is delivered: to all listeners, or no further than to one that lets out what is no error. -/
def TellsOf (level : Nat) (event : StepEvent) (names : List String) (log : List Notice) :
    Except FaultId Unit × World → Prop
  | (.ok (), _) => log.filterMap (Notice.told? level) = names.map (·, event)
  | (.error fault, v) => (v.faults.kindOf fault).isError = false ∧ ∃ told untold, names = told ++ untold ∧ told ≠ [] ∧
      log.filterMap (Notice.told? level) = told.map (·, event)

/-- The listener that is told first, and then those of which it is known how far they are told. -/
theorem TellsOf.cons {event : StepEvent} {names : List String} {name : String}
    {answer : Except FaultId Unit × World} (h : TellsOf level event names more answer)
    (hfirst : log.filterMap (Notice.told? level) = [(name, event)]) :
    TellsOf level event (name :: names) (log ++ more) answer := by
  match answer with
  | (.ok (), v) =>
    change (log ++ more).filterMap _ = _
    rw [List.filterMap_append, hfirst, show more.filterMap _ = names.map (·, event) from h]
    rfl
  | (.error fault, v) =>
    obtain ⟨hkind, told, untold, rfl, -, htold⟩ := h
    refine ⟨hkind, name :: told, untold, rfl, by simp, ?_⟩
    rw [List.filterMap_append, hfirst, htold]
    rfl

/-- The listeners of a list are told of a step in turn, each of them once. -/
theorem tellNoted_told {hear : String → World → (Except FaultId Unit × World) × List Notice} (hhear : Hears level hear)
    (event : StepEvent) (names : List String) (w : World) :
    w.Accounts (tellNoted level hear event names w).2 (tellNoted level hear event names w).1.2 ∧
      (∀ n ∈ (tellNoted level hear event names w).2, n.IsWithin level) ∧
      TellsOf level event names (tellNoted level hear event names w).2 (tellNoted level hear event names w).1 := by
  induction names generalizing w with
  | nil => exact ⟨accounts_nil rfl, fun n hn => (by cases hn), rfl⟩
  | cons name names ih =>
    have htell : w.Accounts [.told level name event] w := ⟨⟨trivial, trivial⟩, rfl, rfl⟩
    have hfirst : Notice.told? level (.told level name event) = some (name, event) := if_pos rfl
    obtain ⟨hduring, hbelow⟩ := hhear name w
    unfold tellNoted
    generalize hear name w = heard at hduring hbelow
    obtain ⟨⟨answer, v⟩, during⟩ := heard
    have hnone : during.filterMap (Notice.told? level) = [] :=
      List.filterMap_eq_nil_iff.2 fun n hn => (hbelow n hn).told?
    have hwithin : ∀ n ∈ Notice.told level name event :: during, n.IsWithin level := by
      intro n hn
      obtain rfl | hn := List.mem_cons.1 hn
      · exact Nat.le_refl level
      · exact (hbelow n hn).isWithin
    cases answer with
    | ok u =>
      obtain ⟨hrest, hlater, htold⟩ := ih v
      refine ⟨(htell.append hduring).append hrest, fun n hn => ?_, htold.cons ?_⟩
      · exact (List.mem_append.1 hn).elim (hwithin n) (hlater n)
      · rw [List.filterMap_cons, hfirst, hnone]
    | error fault =>
      dsimp only
      cases herror : (v.faults.kindOf fault).isError with
      | false =>
        refine ⟨htell.append hduring, hwithin, herror, [name], names, rfl, by simp, ?_⟩
        rw [if_neg Bool.false_ne_true, List.filterMap_cons, hfirst, hnone]
        rfl
      | true =>
        obtain ⟨hrest, hlater, htold⟩ := ih (v.logFault gateLogger listenerFailed fault)
        have hfail : v.Accounts [.failed level name (v.faults.kindOf fault)] (v.logFault gateLogger listenerFailed fault) :=
          ⟨⟨herror, trivial⟩, rfl, rfl⟩
        have hassoc (rest : List Notice) : .told level name event :: during ++ .failed level name
          (v.faults.kindOf fault) :: rest =
            ([.told level name event] ++ during ++ [.failed level name (v.faults.kindOf fault)]) ++ rest := by simp
        rw [if_pos rfl]
        dsimp only
        rw [hassoc]
        refine ⟨((htell.append hduring).append hfail).append hrest, fun n hn => ?_, htold.cons ?_⟩
        · obtain hn | hn := List.mem_append.1 hn
          · obtain hn | hn := List.mem_append.1 hn
            · exact hwithin n hn
            · cases List.mem_singleton.1 hn
              exact Nat.le_refl level
          · exact hlater n hn
        · rw [List.filterMap_append, List.filterMap_append, hnone]
          simp [Notice.told?]

/-- What is noted of a step from its beginning to the notice that closes it, if the step is counted first and is then
delivered. -/
theorem accounts_delivered {x : World} {event : StepEvent} {during : List Notice} {last : Notice}
    (hbegins : w.ledger.after (.begins level event) = u.ledger) (hseq : event.seq = w.ledger.count + 1)
    (hduring : u.Accounts during v) (hwithin : ∀ n ∈ during, n.IsWithin level)
    (hdelivers : Delivers level event w.ledger.listeners (during ++ [last]))
    (hlast : (∃ step, last = .created level step) ∨ ∃ kind, last = .stopped level kind)
    (hfits : v.ledger.Fits [] last) (hledger : x.ledger = v.ledger.after last) :
    w.Accounts (.begins level event :: (during ++ [last])) x ∧
      ∀ n ∈ Notice.begins level event :: (during ++ [last]), n.IsBelow (level + 1) := by
  refine ⟨⟨⟨⟨hseq, hdelivers⟩, ?_⟩, ?_, ?_⟩, fun n hn => ?_⟩
  · rw [hbegins]
    exact hduring.admits.append (hduring.ledger ▸ ⟨hfits, trivial⟩)
  · calc x.ledger = (u.ledger.reads during).after last := by rw [hledger, hduring.ledger]
      _ = u.ledger.reads (during ++ [last]) := by
          rw [Ledger.reads_append]
          rfl
      _ = _ := by
          rw [← hbegins]
          rfl
  · have hbalanced := hduring.balanced
    obtain ⟨step, rfl⟩ | ⟨kind, rfl⟩ := hlast <;>
      simp only [List.countP_cons, List.countP_append, List.countP_nil, Notice.isBegins, Notice.isCreated,
        Notice.isStopped, if_true, Bool.false_eq_true, if_false] <;> omega
  · simp only [List.mem_cons, List.mem_append, List.not_mem_nil, or_false] at hn
    obtain rfl | hn | rfl := hn
    · exact Nat.lt_succ_self level
    · exact (hwithin n hn).isBelow_succ
    · obtain ⟨step, rfl⟩ | ⟨kind, rfl⟩ := hlast <;> exact Nat.lt_succ_self level

/-- A call boundary is refused, or counted without a word to anybody, or else the listeners that are registered are told
of a step, which is then set up unless one of them stops that. -/
theorem accounts_boundary {hear : Hear} (hhear : ∀ event, Hears level (hear event)) {install : World → Step × World}
    (hinstall : ∀ u, (install u).2.ledger = u.ledger.after (.created level (install u).1.id) ∧
      (install u).1.id = u.gate.steps.size) (call : Call) (w : World) :
    w.Accounts (installNoted level install (w.announceNoted level hear call)).2
        (installNoted level install (w.announceNoted level hear call)).1.2 ∧
      ∀ n ∈ (installNoted level install (w.announceNoted level hear call)).2, n.IsBelow (level + 1) := by
  unfold announceNoted
  cases w.gate.pending with
  | some id => exact ⟨accounts_nil rfl, fun n hn => (by cases hn)⟩
  | none =>
    dsimp only
    generalize hshown : (w.modifyGate fun g => { g with seq := g.seq + 1 }).showCall call = u
    have hgate : u.gate = { w.gate with seq := w.gate.seq + 1 } := by
      rw [← hshown, showCall_gate]
      rfl
    have hcounted (event : StepEvent) : w.ledger.after (.begins level event) = u.ledger := by
      unfold ledger
      rw [hgate]
      rfl
    cases call.args.items with
    | error c =>
      refine ⟨⟨⟨trivial, trivial⟩, (hcounted ⟨0, "", [], .none⟩).symm, rfl⟩, fun n hn => ?_⟩
      cases List.mem_singleton.1 hn
      trivial
    | ok args =>
      dsimp only
      generalize hevent : (⟨u.gate.seq, callName call.func, args, call.cell⟩ : StepEvent) = event
      have hseq : event.seq = w.ledger.count + 1 := by
        rw [← hevent, hgate]
        rfl
      have hlisteners : u.gate.listeners = w.ledger.listeners := by
        rw [hgate]
        rfl
      obtain ⟨hduring, hwithin, htold⟩ := tellNoted_told (hhear event) event u.gate.listeners u
      generalize tellNoted level (hear event) event u.gate.listeners u = heard at hduring hwithin htold
      rw [hlisteners] at htold
      match heard with
      | ((.ok (), v), during) =>
        obtain ⟨hafter, hid⟩ := hinstall v
        exact accounts_delivered (hcounted event) hseq hduring hwithin (.all hwithin htold) (.inl ⟨_, rfl⟩) hid hafter
      | ((.error fault, v), during) =>
        obtain ⟨hkind, told, untold, hnames, hsome, htold⟩ := htold
        exact accounts_delivered (hcounted event) hseq hduring hwithin (.stopped hwithin hnames hsome htold)
          (.inr ⟨_, rfl⟩) hkind rfl

/-- The notices of an operation account for what it does to the ledger, and are at its level or below. -/
theorem accounts_performNotedWith {hear : Hear} (hhear : ∀ event, Hears level (hear event)) (o : Op) (w : World) :
    w.Accounts (performNotedWith env level hear o w).2 (performNotedWith env level hear o w).1.2 ∧
      ∀ n ∈ (performNotedWith env level hear o w).2, n.IsBelow (level + 1) := by
  have hother (hhook : ∀ call, o ≠ .hook call) (hstep : ∀ call, o ≠ .step call) :
      w.Accounts (o.notices w) (performWith env (fun _ w => (.ok (), w)) o w).2 ∧ ∀ n ∈ o.notices w, n.IsBelow (level + 1) :=
    ⟨accounts_notices (performWith_ledger _ hhook hstep w), notices_isBelow o w _⟩
  cases o with
  | hook call =>
    refine accounts_boundary hhear (fun u => ⟨installFor_ledger u _ level, ?_⟩) _ w
    rw [installFor_fst]
    rfl
  | step call => exact accounts_boundary hhear (fun u => ⟨installStep_ledger u level, rfl⟩) call w
  | _ => exact hother nofun nofun

/-- What code does is noted truly if what its operations do is. -/
theorem accounts_runNoted {α : Type} {perform : (o : Op) → World → (o.Reply × World) × List Notice}
    (hperform : ∀ o w, w.Accounts (perform o w).2 (perform o w).1.2 ∧ ∀ n ∈ (perform o w).2, n.IsBelow level)
    (c : Code α) (w : World) : w.Accounts (c.runNoted perform w).2 (c.runNoted perform w).1.2 ∧
      ∀ n ∈ (c.runNoted perform w).2, n.IsBelow level := by
  induction c generalizing w with
  | done a => exact ⟨accounts_nil rfl, fun n hn => (by cases hn)⟩
  | op o k ih =>
    obtain ⟨hfirst, hbelow⟩ := hperform o w
    obtain ⟨hrest, hafter⟩ := ih (perform o w).1.1 (perform o w).1.2
    refine ⟨hfirst.append hrest, fun n hn => ?_⟩
    obtain hn | hn := List.mem_append.1 hn
    · exact hbelow n hn
    · exact hafter n hn

/-- A listener who does nothing accounts for nothing. -/
theorem hears_none (level : Nat) (event : StepEvent) : Hears level (hearNone event) :=
  fun _ _ => ⟨accounts_nil rfl, fun n hn => by cases hn⟩

/-- A listener's reaction accounts for what it does, provided its operations do. -/
theorem hears_noted {perform : (o : Op) → World → (o.Reply × World) × List Notice}
    (hperform : ∀ o w, w.Accounts (perform o w).2 (perform o w).1.2 ∧ ∀ n ∈ (perform o w).2, n.IsBelow level)
    (event : StepEvent) : Hears level (hearNoted env perform event) :=
  fun name w => accounts_runNoted hperform (env.react name event).run w

/-- The notices of an operation account for it at every depth of delivery. -/
theorem accounts_performNotedWithin (env : Env) (depth : Nat) (o : Op) (w : World) :
    w.Accounts (performNotedWithin env depth o w).2 (performNotedWithin env depth o w).1.2 ∧
      ∀ n ∈ (performNotedWithin env depth o w).2, n.IsBelow (depth + 1) := by
  induction depth generalizing o w with
  | zero => exact accounts_performNotedWith (hears_none 0) o w
  | succ depth ih => exact accounts_performNotedWith (fun event => hears_noted ih event) o w

/-- What is noted of an operation is true. -/
theorem accounts_perform (env : Env) (o : Op) (w : World) :
    w.Accounts (performNoted env o w).2 (w.perform env o).2 := by
  rw [← performNoted_fst]
  exact (accounts_performNotedWithin env nesting o w).1

/-- Where no listener lets out anything but errors, and none of them is stopped within, no step is stopped. -/
theorem unstopped_tellNoted {hear : String → World → (Except FaultId Unit × World) × List Notice}
    (hlog : ∀ name w, ∀ n ∈ (hear name w).2, n.isStopped = false) (event : StepEvent) (names : List String) (w : World) :
    ∀ n ∈ (tellNoted level hear event names w).2, n.isStopped = false := by
  induction names generalizing w with
  | nil => exact fun n hn => by cases hn
  | cons name names ih =>
    have hduring := hlog name w
    unfold tellNoted
    generalize hear name w = heard at hduring
    have htold : ∀ n ∈ Notice.told level name event :: heard.2, n.isStopped = false := by
      intro n hn
      obtain rfl | hn := List.mem_cons.1 hn
      · rfl
      · exact hduring n hn
    match heard with
    | ((.ok (), v), during) => exact fun n hn => (List.mem_append.1 hn).elim (htold n) (ih v n)
    | ((.error fault, v), during) =>
      dsimp only
      split
      · intro n hn
        obtain hn | hn := List.mem_append.1 hn
        · exact htold n hn
        · obtain rfl | hn := List.mem_cons.1 hn
          · rfl
          · exact ih _ n hn
      · exact htold

/-- No delivery is stopped where listeners let out errors only. -/
theorem unstopped_announceNoted {hear : Hear} (hlog : ∀ event name w, ∀ n ∈ (hear event name w).2, n.isStopped = false)
    (herrors : ∀ event name w fault v, (hear event name w).1 = (.error fault, v) → (v.faults.kindOf fault).isError = true)
    (call : Call) (w : World) : ∀ n ∈ (w.announceNoted level hear call).2, n.isStopped = false := by
  unfold announceNoted
  cases w.gate.pending with
  | some id => exact fun n hn => by cases hn
  | none =>
    dsimp only
    cases call.args.items with
    | error c =>
      intro n hn
      cases List.mem_singleton.1 hn
      rfl
    | ok args =>
      dsimp only
      generalize (w.modifyGate fun g => { g with seq := g.seq + 1 }).showCall call = u
      generalize (⟨u.gate.seq, callName call.func, args, call.cell⟩ : StepEvent) = event
      have hrest : ∀ n ∈ (tellNoted level (hear event) event u.gate.listeners u).2, n.isStopped = false :=
        unstopped_tellNoted (hlog event) event u.gate.listeners u
      have hok : (tellNoted level (hear event) event u.gate.listeners u).1.1 = .ok () := by
        rw [tellNoted_fst]
        exact tellEach_ok (fun name x fault v heq => herrors event name x fault v heq) _ u
      generalize tellNoted level (hear event) event u.gate.listeners u = heard at hrest hok
      match heard with
      | ((.ok (), v), during) =>
        intro n hn
        obtain rfl | hn := List.mem_cons.1 hn
        · rfl
        · exact hrest n hn
      | ((.error fault, v), during) => cases hok

/-- A set-up stops no delivery that was not stopped before. -/
theorem unstopped_installNoted {install : World → Step × World} {announced : (Except FaultId Unit × World) × List Notice}
    (hannounced : ∀ n ∈ announced.2, n.isStopped = false) :
    ∀ n ∈ (installNoted level install announced).2, n.isStopped = false := by
  match announced with
  | ((.error fault, v), log) => exact hannounced
  | ((.ok (), v), log) =>
    intro n hn
    obtain hn | hn := List.mem_append.1 hn
    · exact hannounced n hn
    · cases List.mem_singleton.1 hn
      rfl

/-- An operation notes no delivery that was stopped, provided listeners let out errors only. -/
theorem unstopped_performNotedWith {hear : Hear} (hlog : ∀ event name w, ∀ n ∈ (hear event name w).2, n.isStopped = false)
    (herrors : ∀ event name w fault v, (hear event name w).1 = (.error fault, v) → (v.faults.kindOf fault).isError = true)
    (o : Op) (w : World) : ∀ n ∈ (performNotedWith env level hear o w).2, n.isStopped = false := by
  have hother : ∀ n ∈ o.notices w, n.isStopped = false := by
    intro n hn
    obtain ⟨name, rfl⟩ | ⟨name, rfl⟩ | rfl := mem_notices hn <;> rfl
  cases o with
  | hook call => exact unstopped_installNoted (unstopped_announceNoted hlog herrors _ w)
  | step call => exact unstopped_installNoted (unstopped_announceNoted hlog herrors call w)
  | _ => exact hother

/-- Code notes no delivery that was stopped, provided its operations note none. -/
theorem unstopped_runNoted {α : Type} {perform : (o : Op) → World → (o.Reply × World) × List Notice}
    (hperform : ∀ o w, ∀ n ∈ (perform o w).2, n.isStopped = false) (c : Code α) (w : World) :
    ∀ n ∈ (c.runNoted perform w).2, n.isStopped = false := by
  induction c generalizing w with
  | done a => exact fun n hn => by cases hn
  | op o k ih => exact fun n hn => (List.mem_append.1 hn).elim (hperform o w n) (ih _ _ n)

/-- Listeners that raise nothing but errors stop no step. -/
theorem unstopped_perform (herrors : env.RaisesErrors) (o : Op) (w : World) :
    ∀ n ∈ (performNoted env o w).2, n.isStopped = false := by
  have hwithin (depth : Nat) (o : Op) (w : World) : ∀ n ∈ (performNotedWithin env depth o w).2, n.isStopped = false := by
    induction depth generalizing o w with
    | zero =>
      refine unstopped_performNotedWith (fun _ _ _ n hn => by cases hn) (fun _ _ w fault v heq => ?_) o w
      cases heq
      exact congrArg FaultKind.isError (Faults.kindOf_add w.faults _)
    | succ depth ih =>
      refine unstopped_performNotedWith (fun event name => unstopped_runNoted ih _) (fun event name w fault v heq => ?_) o w
      exact herrors depth name event w fault v ((runNoted_fst (performNotedWithin_fst env depth) _ w).symm.trans heq)
  exact hwithin nesting o w

end World

end SteppedLogo
