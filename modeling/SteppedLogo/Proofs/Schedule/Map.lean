import SteppedLogo.Proofs.Schedule.Queued

namespace SteppedLogo

variable {α β : Type} {f : α → β}

def Timer.map (f : α → β) (t : Timer α) : Timer β := ⟨t.id, t.due, f t.callback⟩

namespace Loop

def Ready.map (f : α → β) (r : Ready α) : Ready β := { timer := r.timer, callback := r.callback.map f }

/-- The same loop, with each callback under another name. -/
def map (f : α → β) (l : Loop α) : Loop β where
  clock := l.clock
  ready := l.ready.map (Ready.map f)
  batch := l.batch
  timers := l.timers.map (Timer.map f)
  nextTimer := l.nextTimer

/-- A loop stays as it is if whatever is queued in it keeps its name. -/
theorem map_eq_self {f : α → α} {l : Loop α} (hf : ∀ c, l.Queued c → f c = c) : l.map f = l := by
  have hready : l.ready.map (Ready.map f) = l.ready := by
    refine (List.map_congr_left fun r hr => ?_).trans (List.map_id l.ready)
    obtain ⟨timer, callback⟩ := r
    cases callback with
    | none => rfl
    | some c =>
      have hkeeps := hf c (.inl ⟨_, hr, rfl⟩)
      simp [Ready.map, hkeeps]
  have htimers : l.timers.map (Timer.map f) = l.timers := by
    refine (List.map_congr_left fun t ht => ?_).trans (List.map_id l.timers)
    have hkeeps := hf t.callback (.inr ⟨t, ht, rfl⟩)
    simp [Timer.map, hkeeps]
  simp only [map, hready, htimers]

theorem soon_map (l : Loop α) (c : α) : (l.map f).soon (f c) = (l.soon c).map f := by
  simp [soon, map, Ready.map]

theorem insertByDue_map (t : Timer α) (ts : List (Timer α)) :
    insertByDue (t.map f) (ts.map (Timer.map f)) = (insertByDue t ts).map (Timer.map f) := by
  induction ts with
  | nil => rfl
  | cons u rest ih =>
    have hsame : (t.map f).due < (u.map f).due ↔ t.due < u.due := Iff.rfl
    simp only [insertByDue, List.map_cons, hsame]
    by_cases hdue : t.due < u.due
    · simp [hdue]
    · simp [hdue, ih]

theorem later_map (l : Loop α) (delay : Float) (c : α) :
    (l.map f).later delay (f c) = ((l.later delay c).1, (l.later delay c).2.map f) := by
  have hinsert := insertByDue_map (f := f) ⟨l.nextTimer, l.clock + delay, c⟩ l.timers
  simp only [Timer.map] at hinsert
  simp only [later, map, hinsert]

theorem cancel_map (l : Loop α) (id : TimerId) : (l.map f).cancel id = (l.cancel id).map f := by
  have hready : (l.ready.map (Ready.map f)).map (Ready.drop id) = (l.ready.map (Ready.drop id)).map (Ready.map f) := by
    rw [List.map_map, List.map_map]
    apply List.map_congr_left
    intro r _
    by_cases htimer : r.timer = some id
    · simp [Ready.drop, Ready.map, htimer]
    · simp [Ready.drop, Ready.map, htimer]
  have htimers : (l.timers.map (Timer.map f)).filter (·.id != id) = (l.timers.filter (·.id != id)).map (Timer.map f) :=
    List.filter_map
  simp only [cancel, map, hready, htimers]

theorem gather_map (l : Loop α) : (l.map f).gather = l.gather.map f := by
  have htake : (l.timers.map (Timer.map f)).takeWhile (isDue l.clock) =
      (l.timers.takeWhile (isDue l.clock)).map (Timer.map f) := List.takeWhile_map
  have hdrop : (l.timers.map (Timer.map f)).dropWhile (isDue l.clock) =
      (l.timers.dropWhile (isDue l.clock)).map (Timer.map f) := List.dropWhile_map
  simp [gather, map, htake, hdrop, Ready.map, Timer.map]

theorem gathered_map (l : Loop α) : (l.map f).gathered = l.gathered.map f := by
  by_cases hbatch : l.batch = 0
  · have hmap : (l.map f).batch = 0 := hbatch
    rw [gathered, gathered, if_pos hmap, if_pos hbatch, gather_map]
  · have hmap : (l.map f).batch ≠ 0 := hbatch
    rw [gathered, gathered, if_neg hmap, if_neg hbatch]

/-- What is taken next is the first of what is ready once the iteration has begun. -/
theorem next?_eq (l : Loop α) : l.next? =
    l.gathered.ready.head?.map fun r => (r.callback,
      { l.gathered with ready := l.gathered.ready.tail, batch := l.gathered.batch - 1 }) := by
  unfold next?
  rw [← gathered]
  cases hready : l.gathered.ready <;> simp only [hready] <;> rfl

/-- What is taken next is the same callback under its other name. -/
theorem next?_map (l : Loop α) : (l.map f).next? = l.next?.map fun taken => (taken.1.map f, taken.2.map f) := by
  have hready : (l.map f).gathered.ready = l.gathered.ready.map (Ready.map f) := by
    rw [gathered_map]
    rfl
  rw [next?_eq, next?_eq, hready, gathered_map]
  cases l.gathered.ready <;> rfl

end Loop

end SteppedLogo
