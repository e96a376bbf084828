import SteppedLogo.Proofs.Hosting.Course

namespace SteppedLogo

namespace World

variable {env : Env} {E : Engagement} {T : Errand} {v w : World} {ids : List StepId} {exit : Exit} {c : Callback}
variable {cs : List Callback} {k : Except FaultId Value → Routine (Except FaultId Value)} {known : FaultId → Prop}

/-- What happens to a bridge that is left to itself: its next callback is called, time passes, or the user interrupts. -/
inductive Happens (env : Env) : World → World → Prop
  | tick {w v : World} (h : w.tick? env = some v) : Happens env w v
  | clock (w : World) (clock : Float) : Happens env w (w.setClock clock)
  | interrupt (w : World) : Happens env w (w.perform env .interrupt).2

/-- How it stands with a host that has been engaged: it has not begun yet, waits for one of its programs, which is on its
way, is to hear of the end of one, or has ended. -/
inductive Engaged (env : Env) (E : Engagement) : World → Prop
  | opens {resume : Except FaultId Value → Routine (Except FaultId Value)} {w : World}
    (hcode : (resume (.ok .none)).Conducts E.asks E.Settles [] E.programs)
    (h : Sits E [] E.programs (E.job resume none false) [.run E.host] w) : Engaged env E w
  | begins {T : Errand} {w : World} (hleads : T.Leads E) (h : T.Begins E (fun _ => (env.program T.source).run) w) :
    Engaged env E w
  | pauses {T : Errand} {k : Except FaultId Value → Routine (Except FaultId Value)} {known : FaultId → Prop} {w : World}
    (hleads : T.Leads E) (hk : Errand.Heedful known k) (hknown : w.Raised known) (h : T.Pauses E k w) : Engaged env E w
  | wakes {T : Errand} {k : Except FaultId Value → Routine (Except FaultId Value)} {known : FaultId → Prop}
    {ids : List StepId} {w : World} (hleads : T.Leads E) (hk : Errand.Heedful known k) (hknown : w.Raised known)
    (h : T.Wakes E k ids w) : Engaged env E w
  | ends {T : Errand} {exit : Exit} {ids : List StepId} {w : World} (hleads : T.Leads E) (h : T.Ends E exit ids w) :
    Engaged env E w
  | discharged {w : World} (h : Discharged E w) : Engaged env E w

/-- The callback that is ready first is the one that is called. -/
theorem tick?_of_queues (h : w.loop.Queues (c :: cs)) (htick : w.tick? env = some v) :
    ∃ l, l.Queues cs ∧ v = ({ w with loop := l } : World).runCallback env c := by
  obtain ⟨l, hnext, hl⟩ := h.next?
  refine ⟨l, hl, ?_⟩
  rw [tick?, hnext] at htick
  exact (Option.some.inj htick).symm

namespace Engaged

theorem setClock (h : Engaged env E w) (clock : Float) : Engaged env E (w.setClock clock) := by
  cases h with
  | opens hcode h => exact .opens hcode (h.setClock clock)
  | begins hleads h => exact .begins hleads (h.setClock clock)
  | pauses hleads hk hknown h => exact .pauses hleads hk hknown (h.setClock clock)
  | wakes hleads hk hknown h => exact .wakes hleads hk hknown (h.setClock clock)
  | ends hleads h => exact .ends hleads (h.setClock clock)
  | discharged h => exact .discharged ⟨h.settles, h.inactive, h.unasked, h.loop.setClock clock⟩

/-- A run is asked to stop, if there is one. -/
theorem cancelRun (h : Engaged env E w) (reason : Value) : Engaged env E (w.cancelRun reason) := by
  cases h with
  | opens hcode h => exact (cancelRun_inactive h.inactive reason).symm ▸ .opens hcode h
  | begins hleads h => exact .begins hleads (h.toils (toils_cancelRun E.asks h.pending reason))
  | pauses hleads hk hknown h =>
    obtain heq | ⟨id, hwakes, hkeeps⟩ := h.cancelRun reason
    · exact heq.symm ▸ .pauses hleads hk hknown h
    · exact .wakes hleads hk (hknown.kept hkeeps) hwakes
  | wakes hleads hk hknown h =>
    have htoils := toils_cancelRun E.asks h.pending reason
    exact .wakes hleads hk (hknown.kept htoils.faults) (h.toils htoils)
  | ends hleads h => exact (cancelRun_inactive h.sits.inactive reason).symm ▸ .ends hleads h
  | discharged h => exact (cancelRun_inactive h.inactive reason).symm ▸ .discharged h

/-- Where the host has its turn, it comes to its end or to the next program. -/
theorem of_goes_on (h : Discharged E w ∨ ∃ T : Errand, T.Leads E ∧ T.Begins E (fun _ => (env.program T.source).run) w) :
    Engaged env E w := by
  obtain h | ⟨T, hleads, h⟩ := h
  · exact .discharged h
  · exact .begins hleads h

variable (hreact : env.react = Launch.react)
variable (hsteps : ∀ source known, (env.program source).run.Stepwise Routine.Told known)

include hreact

/-- Where the program has its turn, it comes to its end or to the next call boundary. -/
theorem of_turn {job : Job} {r : Routine (Except FaultId Value)} (hleads : T.Leads E)
    (hr : r.Stepwise Routine.Told known) (h : T.Works E ids w) (hknown : w.Raised known) (hfuture : job.future = T.future)
    (hrun : job.run = some T.runs.size) : Engaged env E (endTurn env T.job job r w) := by
  obtain ⟨k, known', hk, hknown', hpauses⟩ | ⟨exit, ids', hends⟩ := h.goes_on hreact hr hknown hfuture hrun
  · exact .pauses hleads hk hknown' hpauses
  · exact .ends hleads hends

include hsteps

/-- A callback is called. -/
theorem ticks (h : Engaged env E w) (htick : w.tick? env = some v) : Engaged env E v := by
  cases h with
  | opens hcode h =>
    obtain ⟨l, hl, rfl⟩ := tick?_of_queues h.loop htick
    obtain ⟨u, hturn, hsits, -⟩ := h.taken env (.ok .none) hl rfl
    change Engaged env E (({ w with loop := l } : World).resume env E.host (.ok .none))
    rw [hturn]
    exact of_goes_on (hsits.goes_on env hcode rfl rfl)
  | begins hleads h =>
    obtain ⟨l, hl, rfl⟩ := tick?_of_queues h.loop htick
    obtain ⟨u, hturn, hworks, -⟩ := h.turn env hl
    rw [hturn]
    exact of_turn hreact hleads (hsteps _ fun _ => False) hworks nofun rfl rfl
  | pauses hleads hk hknown h =>
    obtain ⟨due, id, -, hearly, hdue⟩ := h.due env
    by_cases hbefore : w.loop.clock < due
    · rw [hearly hbefore] at htick
      cases htick
    · obtain ⟨u, hu, hfaults, hwakes⟩ := hdue hbefore
      rw [hu] at htick
      cases htick
      exact .wakes hleads hk (fun id hid => hfaults ▸ hknown id hid) hwakes
  | @wakes T k known ids w hleads hk hknown h =>
    cases ids with
    | nil =>
      obtain ⟨l, hl, rfl⟩ := tick?_of_queues h.loop htick
      obtain ⟨future, received, u, hturn, hworks, hfaults, hraised⟩ := h.turn env hl
      rw [hturn]
      exact of_turn hreact hleads (hk received) hworks (fun id hid => hfaults ▸ (hknown.or hraised) id hid) rfl rfl
    | cons id ids =>
      obtain ⟨l, hl, rfl⟩ := tick?_of_queues h.loop htick
      exact .wakes hleads hk (hknown.kept (light_retract { w with loop := l } id).faults) (h.retracts hl)
  | @ends T exit ids w hleads h =>
    cases ids with
    | nil =>
      obtain ⟨l, hl, rfl⟩ := tick?_of_queues h.sits.loop htick
      obtain ⟨u, hturn, hsits⟩ := h.turn env hl
      rw [hturn]
      exact of_goes_on (hsits.goes_on env (hleads exit) rfl rfl)
    | cons id ids =>
      obtain ⟨l, hl, rfl⟩ := tick?_of_queues h.sits.loop htick
      exact .ends hleads (h.retracts hl)
  | discharged h =>
    rw [tick?, h.loop.next?_nil] at htick
    cases htick

theorem happens (h : Engaged env E w) (hv : Happens env w v) : Engaged env E v := by
  cases hv with
  | tick htick => exact h.ticks hreact hsteps htick
  | clock clock => exact h.setClock clock
  | interrupt =>
    exact World.deliverInterrupt_keeps (K := Engaged env E) h fun reason => h.cancelRun reason

/-- What has been the case at the beginning, is the case whatever has happened since. -/
theorem reaches (h : Engaged env E w) (hv : Relation.ReflTransGen (Happens env) w v) : Engaged env E v := by
  induction hv with
  | refl => exact h
  | tail _ hstep ih => exact ih.happens hreact hsteps hstep

end Engaged

theorem Tells.sources (h : Tells E T w) :
    ∃ more, w.session.runs.toList = E.before ++ more ∧ more.map Run.source <+: E.programs := by
  obtain ⟨run, hruns, hsource, -⟩ := h.run
  obtain ⟨more, hmore, hpast, -⟩ := h.chronicle.sources
  refine ⟨more ++ [run], by rw [hruns, Array.toList_push, hmore, List.append_assoc], T.left, ?_⟩
  rw [List.map_append, hpast, List.map_singleton, hsource, List.append_assoc]
  exact h.chronicle.programs

namespace Engaged

/-- The host has run its programs in their order, as far as it has come, and nothing else. -/
theorem sources (h : Engaged env E w) :
    ∃ more, w.session.runs.toList = E.before ++ more ∧ more.map Run.source <+: E.programs := by
  have hpast {past : List (String × Exit)} {left : List String} {faults : Faults} {runs : Array Run}
      (h : E.Chronicle past left faults runs) :
      ∃ more, runs.toList = E.before ++ more ∧ more.map Run.source <+: E.programs := by
    obtain ⟨more, hmore, -, hsources⟩ := h.sources
    exact ⟨more, hmore, hsources⟩
  cases h with
  | opens _ h => exact hpast h.chronicle
  | begins _ h => exact h.tells.sources
  | pauses _ _ _ h => exact h.tells.sources
  | wakes _ _ _ h => exact h.tells.sources
  | ends _ h => exact hpast h.sits.chronicle
  | discharged h =>
    obtain ⟨past, left, result, -, hchronicle, -⟩ := h.settles
    exact hpast hchronicle

theorem unasked (h : Engaged env E w) : w.Unasked E.asks := by
  cases h with
  | opens _ h => exact h.unasked
  | begins _ h => exact h.tells.unasked
  | pauses _ _ _ h => exact h.tells.unasked
  | wakes _ _ _ h => exact h.tells.unasked
  | ends _ h => exact h.sits.unasked
  | discharged h => exact h.unasked

/-- A host that has come to an outcome has ended. -/
theorem discharged_of_done (h : Engaged env E w) (hdone : w.isDone E.future = true) : Discharged E w := by
  have hopen (hopen : w.isDone E.future = false) : Discharged E w := by
    rw [hdone] at hopen
    cases hopen
  cases h with
  | opens _ h => exact hopen h.isOpen
  | begins _ h => exact hopen h.posts.open_host
  | pauses _ _ _ h =>
    obtain ⟨id, future, hposts, -⟩ := h.step
    exact hopen hposts.open_host
  | wakes _ _ _ h =>
    obtain ⟨future, o, received, hposts, -⟩ := h.step
    exact hopen hposts.open_host
  | ends _ h => exact hopen h.sits.isOpen
  | discharged h => exact h

end Engaged

end World

namespace Errand

open World

variable {env : Env} {E : Engagement} {T : Errand} {v w : World} {job : Job} {ids : List StepId} {exit : Exit}
variable {k : Except FaultId Value → Routine (Except FaultId Value)} {known : FaultId → Prop}

/-- The program is woken, and comes to have its turn. -/
theorem Wakes.driven (env : Env) (h : T.Wakes E k ids w) (hknown : w.Raised known) : ∃ future received u,
    Drives env E.future w (endTurn env T.job (T.runJob k (some future) true) (k received) u) ∧ T.Works E [] u ∧
      u.Raised fun id => known id ∨ received = .error id := by
  induction ids generalizing w with
  | nil =>
    obtain ⟨_, _, _, hposts, -⟩ := h.step
    obtain ⟨l, hl, hdrives⟩ := Drives.callback env hposts.open_host h.loop
    obtain ⟨future, received, u, hturn, hworks, hfaults, hraised⟩ := h.turn env hl
    rw [hturn] at hdrives
    exact ⟨future, received, u, hdrives, hworks, fun id hid => hfaults ▸ (hknown.or hraised) id hid⟩
  | cons id ids ih =>
    obtain ⟨_, _, _, hposts, -⟩ := h.step
    obtain ⟨l, hl, hdrives⟩ := Drives.callback env hposts.open_host h.loop
    obtain ⟨future, received, u, hturn, hworks⟩ :=
      ih (h.retracts hl) (hknown.kept (light_retract { w with loop := l } id).faults)
    exact ⟨future, received, u, hdrives.trans hturn, hworks⟩

/-- The step at which the program waits becomes due, and the program comes to have its turn. -/
theorem Pauses.driven (env : Env) (h : T.Pauses E k w) (hknown : w.Raised known) : ∃ future received u,
    Drives env E.future w (endTurn env T.job (T.runJob k (some future) true) (k received) u) ∧ T.Works E [] u ∧
      u.Raised fun id => known id ∨ received = .error id := by
  obtain ⟨clock, hclock, id, u, htick, hfaults, hwakes⟩ : ∃ clock, Drives env E.future w (w.setClock clock) ∧
      ∃ id u, (w.setClock clock).tick? env = some u ∧ u.faults = w.faults ∧ T.Wakes E k [id] u := by
    obtain ⟨_, _, hposts, -⟩ := h.step
    obtain ⟨due, id, hearliest, hearly, hdue⟩ := h.due env
    by_cases hbefore : w.loop.clock < due
    · obtain ⟨due', id', hearliest', -, hdue'⟩ := (h.setClock due).due env
      obtain rfl : due = due' := Option.some.inj (hearliest.symm.trans hearliest')
      exact ⟨due, .clock hposts.open_host (hearly hbefore) hearliest, id', hdue' (Loop.not_early due)⟩
    · exact ⟨w.loop.clock, .refl env _ w, id, hdue hbefore⟩
  obtain ⟨_, _, hposts, -⟩ := (h.setClock clock).step
  obtain ⟨future, received, v, hdrives, hworks⟩ := hwakes.driven env fun id hid => hfaults ▸ hknown id hid
  exact ⟨future, received, v, (hclock.trans (.tick hposts.open_host htick)).trans hdrives, hworks⟩

/-- The steps that have been rejected are retracted, and the host is to be woken next. -/
theorem Ends.driven (env : Env) (h : T.Ends E exit ids w) : ∃ v, Drives env E.future w v ∧ T.Ends E exit [] v := by
  induction ids generalizing w with
  | nil => exact ⟨w, .refl env _ w, h⟩
  | cons id ids ih =>
    obtain ⟨l, hl, hdrives⟩ := Drives.callback env h.sits.isOpen h.sits.loop
    obtain ⟨v, hmore, hv⟩ := ih (h.retracts hl)
    exact ⟨v, hdrives.trans hmore, hv⟩

/-- A program that has its turn comes to its end, for each call boundary takes it further. -/
theorem Works.finishes (job : Job) (hreact : env.react = Launch.react) {r : Routine (Except FaultId Value)}
    (hr : r.Stepwise Routine.Told known) (h : T.Works E ids w) (hknown : w.Raised known) (hfuture : job.future = T.future)
    (hrun : job.run = some T.runs.size) :
    ∃ exit v, Drives env E.future (endTurn env T.job job r w) v ∧ T.Ends E exit [] v := by
  induction hr generalizing ids w job with
  | done htold =>
    obtain ⟨exit, hends⟩ := h.ends env (fun id hid => hknown id (htold id hid)) hfuture hrun
    obtain ⟨v, hdrives, hv⟩ := hends.driven env
    exact ⟨exit, v, hdrives, hv⟩
  | op ho _ ih =>
    obtain ⟨htoils, hgives⟩ := toils_perform env E.asks ho h.pending h.tells.isActive
    exact ih _ job (h.toils htoils) ((hknown.kept htoils.faults).or hgives) hfuture hrun
  | @hook known call args k g hargs hok hg ih =>
    obtain ⟨step, hpauses, hkeeps⟩ | ⟨step, c, u, hturn, hworks, hkeeps, hraised⟩ := h.hooks hreact hargs hok
    · obtain ⟨future, received, u, hdrives, hworks, hraised⟩ := hpauses.driven env (hknown.kept hkeeps)
      obtain ⟨exit, v, hmore, hv⟩ := ih step received (T.runJob (g step) (some future) true) hworks hraised rfl rfl
      exact ⟨exit, v, hdrives.trans hmore, hv⟩
    · rw [hturn]
      exact ih step (.error c) job hworks
        ((hknown.kept hkeeps).or fun id hid => hraised id (Except.error.inj hid).symm) hfuture hrun

/-- A program that has been started comes to its end. -/
theorem Begins.finishes (hreact : env.react = Launch.react)
    (hsteps : (k (.ok .none)).Stepwise Routine.Told fun _ => False) (h : T.Begins E k w) :
    ∃ exit v, Drives env E.future w v ∧ T.Ends E exit [] v := by
  obtain ⟨l, hl, hdrives⟩ := Drives.callback env h.posts.open_host h.loop
  obtain ⟨u, hturn, hworks, -⟩ := h.turn env hl
  rw [hturn] at hdrives
  obtain ⟨exit, v, hmore, hv⟩ :=
    hworks.finishes (T.runJob k none false) hreact hsteps nofun rfl rfl
  exact ⟨exit, v, hdrives.trans hmore, hv⟩

/-- A program that comes to have its turn comes to its end. -/
theorem Heedful.finishes (hreact : env.react = Launch.react) (hk : Heedful known k)
    (h : ∃ future received u, Drives env E.future w (endTurn env T.job (T.runJob k (some future) true) (k received) u) ∧
      T.Works E [] u ∧ u.Raised fun id => known id ∨ received = .error id) :
    ∃ exit v, Drives env E.future w v ∧ T.Ends E exit [] v := by
  obtain ⟨future, received, u, hdrives, hworks, hraised⟩ := h
  obtain ⟨exit, v, hmore, hv⟩ :=
    hworks.finishes (T.runJob k (some future) true) hreact (hk received) hraised rfl rfl
  exact ⟨exit, v, hdrives.trans hmore, hv⟩

/-- The host is woken, and comes to have its turn. -/
theorem Ends.woken (env : Env) (h : T.Ends E exit [] w) : ∃ u,
    Drives env E.future w (endTurn env E.host (E.job T.closing (some T.future) true) (T.goesOn (.ok exit)) u) ∧
      Sits E (T.past ++ [(T.source, exit)]) T.left (E.job T.closing none true) [] u := by
  obtain ⟨l, hl, hdrives⟩ := Drives.callback env h.sits.isOpen h.sits.loop
  obtain ⟨u, hturn, hsits⟩ := h.turn env hl
  rw [hturn] at hdrives
  exact ⟨u, hdrives, hsits⟩

end Errand

namespace World

variable {env : Env} {E : Engagement} {w : World} {job : Job} {past : List (String × Exit)} {left : List String}
variable {resume : Except FaultId Value → Routine (Except FaultId Value)} (hreact : env.react = Launch.react)
variable (hsteps : ∀ source known, (env.program source).run.Stepwise Routine.Told known)

include hreact hsteps

/-- A host that has its turn comes to its end, for each program that has ended takes it further. -/
theorem Sits.finishes (job : Job) {r : Routine (Except FaultId Value)} (hr : r.Conducts E.asks E.Settles past left)
    (h : Sits E past left (E.job resume none true) [] w) (hfuture : job.future = E.future) (hrun : job.run = none) :
    ∃ v, Drives env E.future (endTurn env E.host job r w) v ∧ Discharged E v := by
  induction hr generalizing w job resume with
  | done hresult => exact ⟨_, .refl env _ _, h.closes env hresult hfuture hrun⟩
  | op ho _ ih => exact ih _ job (h.idles (idles_perform env ho w)) hfuture hrun
  | @call _ _ source k hk ih =>
    obtain ⟨T, rfl, rfl, rfl, rfl, hbegins⟩ := h.calls env job k
    obtain ⟨exit, x, hdrives, hends⟩ := hbegins.finishes hreact (hsteps _ _)
    obtain ⟨u, hwoken, hsits⟩ := hends.woken env
    obtain ⟨v, hmore, hv⟩ := ih exit (E.job T.closing (some T.future) true) hsits rfl rfl
    exact ⟨v, (hdrives.trans hwoken).trans hmore, hv⟩

/-- Once a program has ended its host comes to its end. -/
theorem Engaged.finishes_behind {T : Errand} {exit : Exit} {ids : List StepId} (hleads : T.Leads E)
    (h : T.Ends E exit ids w) : ∃ v, Drives env E.future w v ∧ Discharged E v := by
  obtain ⟨x, hdriven, hends⟩ := h.driven env
  obtain ⟨u, hwoken, hsits⟩ := hends.woken env
  obtain ⟨v, hmore, hv⟩ :=
    hsits.finishes hreact hsteps (E.job T.closing (some T.future) true) (hleads exit) rfl rfl
  exact ⟨v, (hdriven.trans hwoken).trans hmore, hv⟩

/-- From every state on a host that has been engaged comes to its end. -/
theorem Engaged.finishes (h : Engaged env E w) : ∃ v, Drives env E.future w v ∧ Discharged E v := by
  have hbehind {T : Errand} (hleads : T.Leads E) (h : ∃ exit u, Drives env E.future w u ∧ T.Ends E exit [] u) :
      ∃ v, Drives env E.future w v ∧ Discharged E v := by
    obtain ⟨exit, u, hdrives, hends⟩ := h
    obtain ⟨v, hmore, hv⟩ := finishes_behind hreact hsteps hleads hends
    exact ⟨v, hdrives.trans hmore, hv⟩
  cases h with
  | @opens resume w hcode h =>
    obtain ⟨l, hl, hdrives⟩ := Drives.callback env h.isOpen h.loop
    obtain ⟨u, hturn, hsits, -⟩ := h.taken env (.ok .none) hl rfl
    change Drives env E.future w (({ w with loop := l } : World).resume env E.host (.ok .none)) at hdrives
    rw [hturn] at hdrives
    obtain ⟨v, hmore, hv⟩ := hsits.finishes hreact hsteps (E.job resume none false) hcode rfl rfl
    exact ⟨v, hdrives.trans hmore, hv⟩
  | begins hleads h => exact hbehind hleads (h.finishes hreact (hsteps _ _))
  | pauses hleads hk hknown h => exact hbehind hleads (hk.finishes hreact (h.driven env hknown))
  | wakes hleads hk hknown h => exact hbehind hleads (hk.finishes hreact (h.driven env hknown))
  | ends hleads h => exact finishes_behind hreact hsteps hleads h
  | discharged h => exact ⟨w, .refl env _ w, h⟩

end World

end SteppedLogo
