
namespace SteppedLogo

abbrev TimerId := Nat

/-- A callback that is to run once the clock has reached `due`. -/
structure Timer (α : Type) where
  id : TimerId
  due : Float
  callback : α

/-- A ready callback; one that came from a timer can still be cancelled, which empties it. -/
structure Ready (α : Type) where
  timer : Option TimerId := none
  callback : Option α

/-- The first `batch` ready callbacks belong to the iteration that is under way. -/
structure Loop (α : Type) where
  clock : Float := 0.0
  ready : List (Ready α) := []
  batch : Nat := 0
  /-- in the order in which they are due -/
  timers : List (Timer α) := []
  nextTimer : TimerId := 0

namespace Loop

variable {α : Type}

/-- Queues a callback behind all that are ready. -/
def soon (l : Loop α) (callback : α) : Loop α :=
  { l with ready := l.ready ++ [{ callback := some callback }] }

/-- Puts a timer into a list ordered by due time, behind those that are due together with it. -/
def insertByDue (t : Timer α) : List (Timer α) → List (Timer α)
  | [] => [t]
  | u :: rest => if t.due < u.due then t :: u :: rest else u :: insertByDue t rest

/-- Sets a timer that is due `delay` after the current time. -/
def later (l : Loop α) (delay : Float) (callback : α) : TimerId × Loop α :=
  (l.nextTimer,
    { l with
      timers := insertByDue ⟨l.nextTimer, l.clock + delay, callback⟩ l.timers
      nextTimer := l.nextTimer + 1 })

/-- Empties the ready callback of a timer. -/
def Ready.drop (id : TimerId) (r : Ready α) : Ready α :=
  if r.timer = some id then { r with callback := none } else r

/-- Stops a timer, also one whose callback is ready but has not run. -/
def cancel (l : Loop α) (id : TimerId) : Loop α :=
  { l with timers := l.timers.filter (·.id != id), ready := l.ready.map (Ready.drop id) }

/-- A timer is due unless its time is still to come; one set for not-a-number is due at once. -/
def isDue (clock : Float) (t : Timer α) : Bool := !(clock < t.due)

/-- Begins an iteration: the callbacks of the timers in front that are due go behind those that
    are ready, and all that are ready now belong to the iteration. -/
def gather (l : Loop α) : Loop α :=
  let due := l.timers.takeWhile (isDue l.clock)
  let ready := l.ready ++ due.map fun t => { timer := some t.id, callback := some t.callback }
  { l with ready, batch := ready.length, timers := l.timers.dropWhile (isDue l.clock) }

/-- Takes the next ready callback, beginning an iteration if none is under way; nothing is taken
    when nothing is ready and no timer is due. -/
def next? (l : Loop α) : Option (Option α × Loop α) :=
  let l := if l.batch = 0 then l.gather else l
  match l.ready with
  | [] => none
  | r :: rest => some (r.callback, { l with ready := rest, batch := l.batch - 1 })

/-- The earliest due time of all timers. -/
def earliest? (l : Loop α) : Option Float := l.timers.head?.map Timer.due

def setClock (l : Loop α) (clock : Float) : Loop α := { l with clock }

end Loop

end SteppedLogo
