import SteppedLogo.Proofs.World.Futures

namespace SteppedLogo

/-- The job that a callback gives a turn, without a look at what the job waits for. -/
def Callback.turn? : Callback → Option JobId
  | .run j => some j
  | _ => none

namespace Loop

/-- The jobs whose turn a ready callback is. -/
def turnsOf (ready : List (Ready Callback)) : List JobId :=
  ready.filterMap fun r => r.callback.bind Callback.turn?

/-- The jobs whose turn is queued. -/
def turns (l : Loop Callback) : List JobId := turnsOf l.ready

variable {l l' : Loop Callback} {c : Callback}

@[simp]
theorem turnsOf_append (rs ss : List (Ready Callback)) :
    turnsOf (rs ++ ss) = turnsOf rs ++ turnsOf ss := List.filterMap_append

theorem turnsOf_eq_nil {rs : List (Ready Callback)}
    (hrs : ∀ r ∈ rs, ∀ c, r.callback = some c → c.turn? = none) : turnsOf rs = [] := by
  refine List.filterMap_eq_nil_iff.2 fun r hr => ?_
  cases hc : r.callback with
  | none => rfl
  | some c => exact hrs r hr c hc

theorem turns_soon (l : Loop Callback) (c : Callback) :
    (l.soon c).turns = l.turns ++ c.turn?.toList := by
  simp only [turns, soon, turnsOf_append]
  cases h : c.turn? <;> simp [turnsOf, h]

theorem turns_soon_of_none (hc : c.turn? = none) : (l.soon c).turns = l.turns := by
  rw [turns_soon, hc, Option.toList_none, List.append_nil]

theorem turns_cancel (l : Loop Callback) (id : TimerId) : (l.cancel id).turns.Sublist l.turns :=
  l.filterMap_cancel id Callback.turn?

/-- The loop after its iteration has begun: no timer gives a turn. -/
theorem turns_gathered (htimers : ∀ t ∈ l.timers, t.callback.turn? = none) :
    l.gathered.turns = l.turns := by
  unfold gathered
  split
  · simp only [turns, gather, turnsOf_append]
    refine (congrArg _ (turnsOf_eq_nil fun r hr c hc => ?_)).trans (List.append_nil _)
    obtain ⟨t, ht, rfl⟩ := List.mem_map.1 hr
    cases hc
    exact htimers t ((List.takeWhile_sublist _).subset ht)
  · rfl

theorem mem_timers_gathered {t : Timer Callback} (ht : t ∈ l.gathered.timers) : t ∈ l.timers := by
  unfold gathered at ht
  split at ht
  · exact (List.dropWhile_sublist _).subset ht
  · exact ht

/-- Taking a callback takes its turn off the queue. -/
theorem turns_next (htimers : ∀ t ∈ l.timers, t.callback.turn? = none) {c : Option Callback}
    (hnext : l.next? = some (c, l')) :
    l.turns = (c.bind Callback.turn?).toList ++ l'.turns ∧ ∀ t ∈ l'.timers, t ∈ l.timers := by
  obtain ⟨r, rest, hready, rfl, rfl⟩ := next?_eq_some hnext
  refine ⟨?_, fun t ht => mem_timers_gathered ht⟩
  rw [← turns_gathered htimers]
  simp only [turns, hready]
  cases h : r.callback.bind Callback.turn? <;> simp [turnsOf, h]

end Loop

namespace World

variable {w : World} {id : FutureId}

/-- Settling a future queues no turn, where none waits for it. -/
theorem turns_settle (o : Outcome)
    (hcallbacks : ∀ f : Future, w.futures[id]? = some f → ∀ c ∈ f.callbacks, c.turn? = none) :
    (w.settle id o).loop.turns = w.loop.turns := by
  obtain ⟨cs, hcs, hloop⟩ := settle_loop w id o
  rw [hloop]
  simp only [Loop.turns, Loop.turnsOf_append]
  refine (congrArg _ (Loop.turnsOf_eq_nil fun r hr c hc => ?_)).trans (List.append_nil _)
  obtain ⟨d, hd, rfl⟩ := List.mem_map.1 hr
  cases hc
  obtain ⟨f, hf, -, hc⟩ := hcs c hd
  exact hcallbacks f hf c hc

end World

end SteppedLogo
