import Mathlib.Data.Option.Basic
import SteppedLogo.Proofs.Schedule.Queued
import SteppedLogo.World.Basic

namespace SteppedLogo.World

theorem getElem?_push_of_some {α : Type} {xs : Array α} {i : Nat} {x y : α} (hx : xs[i]? = some x) :
    (xs.push y)[i]? = some x := by
  have hlt : i < xs.size := (Array.getElem?_eq_some_iff.1 hx).1
  rw [Array.getElem?_push, if_neg (Nat.ne_of_lt hlt), hx]

theorem modify_push_size {α : Type} (xs : Array α) (x : α) (change : α → α) :
    (xs.push x).modify xs.size change = xs.push (change x) := by
  refine Array.ext_getElem? fun i => ?_
  rw [Array.getElem?_modify, Array.getElem?_push, Array.getElem?_push]
  by_cases h : i = xs.size
  · simp [h]
  · simp [h, Ne.symm h]

/-- What stands in a table with a new entry stood there before, or is the entry. -/
theorem getElem?_push_eq_some {α : Type} {xs : Array α} {i : Nat} {x y : α} :
    (xs.push y)[i]? = some x ↔ xs[i]? = some x ∨ i = xs.size ∧ x = y := by
  rw [Array.getElem?_push]
  by_cases h : i = xs.size
  · simp [h, eq_comm]
  · simp [h]

/-- An array is not longer than one that has an entry wherever it has one. -/
theorem size_le_of_get {α β : Type} {xs : Array α} {ys : Array β}
    (h : ∀ (i : Nat) (x : α), xs[i]? = some x → ∃ y, ys[i]? = some y) : xs.size ≤ ys.size := by
  by_contra hlt
  obtain ⟨y, hy⟩ := h ys.size _ (Array.getElem?_eq_getElem (Nat.lt_of_not_le hlt))
  rw [Array.getElem?_size] at hy
  cases hy

variable {w : World} {id other : FutureId} {f g : Future} {o p : Outcome} {c : Callback}

/-- The outcome of a future that is there is the one it holds. -/
theorem outcome?_of_get (hf : w.futures[id]? = some f) : w.outcome? id = f.outcome := by
  simp [outcome?, hf]

/-- A future that has an outcome is there. -/
theorem get_of_outcome? (ho : w.outcome? id = some o) :
    ∃ f, w.futures[id]? = some f ∧ f.outcome = some o := by
  simpa [outcome?, Option.bind_eq_some_iff] using ho

/-- A future is done exactly if it has an outcome. -/
theorem isDone_iff : w.isDone id = true ↔ ∃ o, w.outcome? id = some o := Option.isSome_iff_exists

/-- A future is not done exactly if it has no outcome. -/
theorem isDone_eq_false : w.isDone id = false ↔ w.outcome? id = none := by
  simp [isDone]

/-- Queueing callbacks in turn adds them behind all that are ready. -/
theorem foldl_soon (cs : List Callback) (w : World) :
    cs.foldl soon w = { w with loop :=
      { w.loop with ready := w.loop.ready ++ cs.map fun c => { callback := some c } } } := by
  induction cs generalizing w with
  | nil => simp
  | cons c cs ih => simp [ih, soon, Loop.soon]

/-- A future that is settled stays as it is; only the attempt is kept in the record. -/
theorem settle_of_done (ho : w.isDone id = true) (o : Outcome) :
    w.settle id o = { w with resettled := w.resettled.push id } := by
  obtain ⟨p, hp⟩ := isDone_iff.1 ho
  obtain ⟨f, hf, hfp⟩ := get_of_outcome? hp
  simp [settle, hf, hfp]

/-- Settling a future that is not there changes nothing. -/
theorem settle_of_missing (hf : w.futures[id]? = none) (o : Outcome) : w.settle id o = w := by
  simp [settle, hf]

/-- Settling an open future keeps its outcome, and queues its callbacks. -/
theorem settle_of_open (hf : w.futures[id]? = some f) (hopen : f.outcome = none) (o : Outcome) :
    w.settle id o =
      { w with
        futures := w.futures.modify id fun f => { f with outcome := some o, callbacks := [] }
        loop := { w.loop with
          ready := w.loop.ready ++ f.callbacks.map fun c => { callback := some c } } } := by
  simp [settle, hf, hopen, foldl_soon]

/-- An open future is settled; where there is none, nothing comes of it but a record of the attempt. -/
theorem settle_cases (w : World) (id : FutureId) (o : Outcome) :
    (∃ f, w.futures[id]? = some f ∧ f.outcome = none) ∨
      (∀ f, w.futures[id]? = some f → f.outcome ≠ none) ∧ ∃ resettled, w.settle id o = { w with resettled } := by
  by_cases hopen : ∃ f, w.futures[id]? = some f ∧ f.outcome = none
  · exact .inl hopen
  · have hsettled (f : Future) (hf : w.futures[id]? = some f) : f.outcome ≠ none := fun ho => hopen ⟨f, hf, ho⟩
    refine .inr ⟨hsettled, ?_⟩
    unfold settle
    split
    · exact ⟨w.resettled, rfl⟩
    · next f hf => exact ⟨_, if_pos (Option.isSome_iff_ne_none.2 (hsettled f hf))⟩

/-- Settling a future makes callbacks ready that waited for it, and does no more to the loop. -/
theorem settle_loop (w : World) (id : FutureId) (o : Outcome) : ∃ cs : List Callback,
    (∀ c ∈ cs, ∃ f, w.futures[id]? = some f ∧ f.outcome = none ∧ c ∈ f.callbacks) ∧
      (w.settle id o).loop = { w.loop with ready := w.loop.ready ++ cs.map fun c => { callback := some c } } := by
  obtain ⟨f, hf, hopen⟩ | ⟨-, vain, hsame⟩ := settle_cases w id o
  · exact ⟨f.callbacks, fun c hc => ⟨f, hf, hopen, hc⟩, by rw [settle_of_open hf hopen]⟩
  · exact ⟨[], fun _ hc => (by cases hc), by rw [hsame, List.map_nil, List.append_nil]⟩

/-- What settling a future leaves as it is, whether it was open or not. -/
theorem settle_eq (w : World) (id : FutureId) (o : Outcome) :
    w.settle id o = { w with
      futures := (w.settle id o).futures
      loop := { w.loop with ready := (w.settle id o).loop.ready }
      resettled := (w.settle id o).resettled } := by
  obtain ⟨f, hf, hopen⟩ | ⟨-, vain, hsame⟩ := settle_cases w id o
  · rw [settle_of_open hf hopen]
  · rw [hsame]

@[simp]
theorem settle_jobs : (w.settle id o).jobs = w.jobs := by rw [settle_eq]

@[simp]
theorem settle_gate : (w.settle id o).gate = w.gate := by rw [settle_eq]

@[simp]
theorem settle_session : (w.settle id o).session = w.session := by rw [settle_eq]

@[simp]
theorem settle_faults : (w.settle id o).faults = w.faults := by rw [settle_eq]

@[simp]
theorem settle_timers : (w.settle id o).loop.timers = w.loop.timers := by rw [settle_eq]

/-- No attempt is vain where the future is open. -/
theorem resettled_settle (hopen : w.isDone id = false) (o : Outcome) : (w.settle id o).resettled = w.resettled := by
  cases hf : w.futures[id]? with
  | none => rw [settle_of_missing hf]
  | some f => rw [settle_of_open hf ((outcome?_of_get hf).symm.trans (isDone_eq_false.1 hopen))]

/-- A future after another one, or it, has been settled: settling gives an outcome where there is
none, and leaves no callback behind. -/
theorem settle_get (w : World) (id other : FutureId) (o : Outcome) :
    (w.settle id o).futures[other]? =
      if id = other then (w.futures[other]?).map fun f =>
        if f.outcome = none then { f with outcome := some o, callbacks := [] } else f
      else w.futures[other]? := by
  by_cases h : id = other
  · subst h
    rw [if_pos rfl]
    obtain ⟨f, hf, hopen⟩ | ⟨hdone, vain, hsame⟩ := settle_cases w id o
    · rw [settle_of_open hf hopen, Array.getElem?_modify, if_pos rfl, hf, Option.map_some, Option.map_some, if_pos hopen]
    · rw [hsame]
      cases hf : w.futures[id]? with
      | none => rfl
      | some f => rw [Option.map_some, if_neg (hdone f hf)]
  · rw [if_neg h]
    obtain ⟨f, hf, hopen⟩ | ⟨-, vain, hsame⟩ := settle_cases w id o
    · rw [settle_of_open hf hopen, Array.getElem?_modify, if_neg h]
    · rw [hsame]

/-- Settling a future keeps the outcome of every other. -/
theorem outcome?_settle_of_ne (hne : id ≠ other) (o : Outcome) :
    (w.settle id o).outcome? other = w.outcome? other := by
  simp only [outcome?, settle_get, if_neg hne]

/-- Settling an open future gives it the outcome. -/
theorem outcome?_settle_of_open (hf : w.futures[id]? = some f) (hopen : f.outcome = none)
    (o : Outcome) : (w.settle id o).outcome? id = some o := by
  simp [outcome?, settle_get, hf, hopen]

/-- An outcome never changes. -/
theorem outcome?_settle_of_some (hp : w.outcome? other = some p) (id : FutureId) (o : Outcome) :
    (w.settle id o).outcome? other = some p := by
  obtain ⟨f, hf, hfp⟩ := get_of_outcome? hp
  by_cases h : id = other
  · simp [outcome?, settle_get, h, hf, hfp]
  · rw [outcome?_settle_of_ne h, hp]

/-- Only the future that is settled may come to an outcome, and then to the given one. -/
theorem outcome?_of_settle (hp : (w.settle id o).outcome? other = some p) :
    w.outcome? other = some p ∨ id = other ∧ p = o := by
  by_cases h : id = other
  · subst h
    obtain ⟨f, hf, hopen⟩ | ⟨-, vain, hsame⟩ := settle_cases w id o
    · rw [outcome?_settle_of_open hf hopen] at hp
      exact .inr ⟨rfl, (Option.some.inj hp).symm⟩
    · exact .inl (by rwa [hsame] at hp)
  · exact .inl (by rwa [outcome?_settle_of_ne h] at hp)

/-- To wait for a future settles none. -/
theorem outcome?_whenDone (w : World) (id : FutureId) (c : Callback) (other : FutureId) :
    (w.whenDone id c).outcome? other = w.outcome? other := by
  unfold whenDone
  split
  · rfl
  · rw [outcome?, outcome?, Array.getElem?_modify]
    split
    · rw [Option.bind_map]
      rfl
    · rfl

/-- Settling queues the callbacks of the future, and no other. -/
theorem queued_settle (hq : (w.settle id o).loop.Queued c) :
    w.loop.Queued c ∨ ∃ f, w.futures[id]? = some f ∧ f.outcome = none ∧ c ∈ f.callbacks := by
  obtain ⟨cs, hcs, hloop⟩ := settle_loop w id o
  rw [hloop] at hq
  obtain ⟨r, hr, hc⟩ | ht := hq
  · obtain hr | hr := List.mem_append.1 hr
    · exact .inl (.inl ⟨r, hr, hc⟩)
    · obtain ⟨d, hd, rfl⟩ := List.mem_map.1 hr
      cases hc
      exact .inr (hcs _ hd)
  · exact .inl (.inr ht)

end SteppedLogo.World
