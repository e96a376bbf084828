import Mathlib.Data.List.Perm.Subperm
import SteppedLogo.Proofs.Gate.Timers

namespace SteppedLogo

/-- The nap that a callback ends. -/
def Callback.nap? : Callback → Option FutureId
  | .rouse id => some id
  | _ => none

theorem Callback.nap?_eq_some {c : Callback} {id : FutureId} : c.nap? = some id ↔ c = .rouse id := by
  cases c <;> simp [nap?]

namespace Loop

variable {l l' : Loop Callback} {id : FutureId}

/-- The naps that ready callbacks end. -/
def napsOf (ready : List (Ready Callback)) : List FutureId :=
  ready.filterMap fun r => r.callback.bind Callback.nap?

/-- The naps that end with a callback that waits in the loop, as a ready one or behind a timer. -/
def naps (l : Loop Callback) : List FutureId :=
  napsOf l.ready ++ l.timers.filterMap fun t => t.callback.nap?

theorem mem_naps : id ∈ l.naps ↔ l.Queued (.rouse id) := by
  simp only [naps, napsOf, List.mem_append, List.mem_filterMap, Option.bind_eq_some_iff, Callback.nap?_eq_some, Queued]
  constructor
  · rintro (⟨r, hr, c, hc, rfl⟩ | ht)
    · exact .inl ⟨r, hr, hc⟩
    · exact .inr ht
  · rintro (⟨r, hr, hc⟩ | ht)
    · exact .inl ⟨r, hr, _, hc, rfl⟩
    · exact .inr ht

/-- What is queued is ready behind all else. -/
theorem naps_soon (l : Loop Callback) (c : Callback) : (l.soon c).naps.Perm (c.nap?.toList ++ l.naps) := by
  have hready : napsOf (l.soon c).ready = napsOf l.ready ++ c.nap?.toList := by
    simp only [napsOf, soon, List.filterMap_append]
    cases h : c.nap? <;> simp [h]
  simp only [naps, hready]
  rw [← List.append_assoc]
  exact List.perm_append_comm.append_right _

theorem naps_later (l : Loop Callback) (delay : Float) (c : Callback) :
    (l.later delay c).2.naps.Perm (c.nap?.toList ++ l.naps) := by
  have htimers (t : Timer Callback) (ts : List (Timer Callback)) :
    ((insertByDue t ts).filterMap fun t => t.callback.nap?).Perm
      (t.callback.nap?.toList ++ ts.filterMap fun t => t.callback.nap?) := by
    induction ts with
    | nil => cases h : t.callback.nap? <;> simp [insertByDue, h]
    | cons u rest ih =>
      unfold insertByDue
      split
      · cases h : t.callback.nap? <;> simp [h]
      · cases h : u.callback.nap? with
        | none => simpa [h] using ih
        | some id =>
          simp only [List.filterMap_cons, h]
          exact (ih.cons id).trans List.perm_middle.symm
  have hset := (htimers ⟨l.nextTimer, l.clock + delay, c⟩ l.timers).append_left (napsOf l.ready)
  refine hset.trans ?_
  simp only [naps, ← List.append_assoc]
  exact List.perm_append_comm.append_right _

theorem naps_cancel (l : Loop Callback) (timer : TimerId) : (l.cancel timer).naps.Sublist l.naps :=
  (l.filterMap_cancel timer Callback.nap?).append (List.filter_sublist.filterMap _)

theorem naps_gathered (l : Loop Callback) : l.gathered.naps = l.naps := by
  unfold gathered
  split
  · have hdue (ts : List (Timer Callback)) :
        (ts.map fun t => ({ timer := some t.id, callback := some t.callback } : Ready Callback)).filterMap
          (fun r => r.callback.bind Callback.nap?) = ts.filterMap fun t => t.callback.nap? := by
      rw [List.filterMap_map]
      rfl
    simp only [naps, napsOf, gather, List.filterMap_append, hdue, List.append_assoc]
    rw [← List.filterMap_append, List.takeWhile_append_dropWhile]
  · rfl

/-- Taking a callback takes the nap that it ends. -/
theorem naps_next {c : Option Callback} (hnext : l.next? = some (c, l')) :
    l.naps = (c.bind Callback.nap?).toList ++ l'.naps := by
  obtain ⟨r, rest, hready, rfl, rfl⟩ := next?_eq_some hnext
  rw [← naps_gathered l]
  simp only [naps, hready, ← List.append_assoc]
  cases h : r.callback.bind Callback.nap? <;> simp [napsOf, h]

end Loop

namespace World

variable {u v w : World} {b n : Bool} {id : FutureId} {o : Outcome}

/-- A nap ends with one callback, and its future is open, unless it was cancelled. -/
structure Rested (w : World) : Prop where
  once : w.loop.naps.Nodup
  free : ∀ id ∈ w.loop.naps, w.outcome? id = none ∨ w.outcome? id = some .cancelled

/-- No nap begins, and none under way ends but by being cancelled. -/
theorem Rested.mono (hw : w.Rested) (hnaps : v.loop.naps.Subperm w.loop.naps)
    (hsame : ∀ id ∈ v.loop.naps, v.outcome? id = w.outcome? id ∨ v.outcome? id = some .cancelled) : v.Rested where
  once := by
    obtain ⟨l, hperm, hsub⟩ := hnaps
    exact hperm.nodup_iff.1 (hsub.nodup hw.once)
  free id hid := by
    obtain hsame | hcancelled := hsame id hid
    · rw [hsame]
      exact hw.free id (hnaps.subset hid)
    · exact .inr hcancelled

theorem Rested.of_futures (hw : w.Rested) (hnaps : v.loop.naps.Subperm w.loop.naps)
    (hsame : ∀ id, v.outcome? id = w.outcome? id) : v.Rested := hw.mono hnaps fun id _ => .inl (hsame id)

/-- A nap may begin whose future is open and that no other callback ends. -/
theorem Rested.admits (hw : w.Rested) {c : Callback} (hc : w.Admits c)
    (hnaps : v.loop.naps.Perm (c.nap?.toList ++ w.loop.naps)) (hsame : ∀ id, v.outcome? id = w.outcome? id) :
    v.Rested := by
  cases hnap : c.nap? with
  | none =>
    rw [hnap, Option.toList_none, List.nil_append] at hnaps
    exact hw.of_futures hnaps.subperm hsame
  | some id =>
    obtain ⟨hopen, hnew⟩ := hc.fresh id (Callback.nap?_eq_some.1 hnap)
    rw [hnap, Option.toList_some, List.singleton_append] at hnaps
    refine ⟨hnaps.nodup_iff.2 (List.nodup_cons.2 ⟨fun h => hnew (Loop.mem_naps.1 h), hw.once⟩), fun other hother => ?_⟩
    rw [hsame]
    obtain rfl | hold := List.mem_cons.1 (hnaps.mem_iff.1 hother)
    · exact .inl hopen
    · exact hw.free other hold

/-- No callback that waits for a future ends a nap. -/
theorem Wired.naps_settle (hw : w.Wired) (hfutures : u.futures = w.futures) (hsteps : KeepsSteps w u) (id : FutureId)
    (o : Outcome) : (u.settle id o).loop.naps = u.loop.naps := by
  obtain ⟨cs, hcs, hloop⟩ := settle_loop u id o
  have hnone : Loop.napsOf (cs.map fun c => ({ callback := some c } : Ready Callback)) = [] := by
    refine List.filterMap_eq_nil_iff.2 fun r hr => ?_
    obtain ⟨c, hc, rfl⟩ := List.mem_map.1 hr
    obtain ⟨f, hf, -, hcf⟩ := hcs c hc
    have hattached := (hw.attached id f c (hfutures ▸ hf) hcf).mono hsteps
    cases c with
    | rouse => cases hattached
    | run | wake | elapse | retract | deed => rfl
  rw [hloop]
  simp only [Loop.naps, Loop.napsOf, List.filterMap_append] at hnone ⊢
  rw [hnone, List.append_nil]

/-- A future may be settled that is that of no nap, and that of a nap may be cancelled. -/
theorem Rested.settle (hu : u.Rested) (hw : w.Wired) (hfutures : u.futures = w.futures) (hsteps : KeepsSteps w u)
    (hopen : u.isDone id = false) (hnap : o = .cancelled ∨ ¬ u.loop.Queued (.rouse id)) : (u.settle id o).Rested := by
  have hnaps := hw.naps_settle hfutures hsteps id o
  refine hu.mono (hnaps ▸ List.Perm.subperm (.refl _)) fun other hother => ?_
  rw [hnaps, Loop.mem_naps] at hother
  by_cases hself : id = other
  · subst hself
    cases hf : u.futures[id]? with
    | none => exact .inl (by rw [settle_of_missing hf])
    | some f =>
      obtain rfl | hnone := hnap
      · exact .inr (outcome?_settle_of_open hf ((outcome?_of_get hf).symm.trans (isDone_eq_false.1 hopen)) _)
      · exact absurd hother hnone
  · exact .inl (outcome?_settle_of_ne hself o)

/-- No step settles with the future of a nap. -/
theorem Wired.step_no_nap (hw : w.Wired) {i : StepId} {s : PacedStep} (hs : w.gate.steps[i]? = some s) :
    ¬ w.loop.Queued (.rouse s.future) := fun hqueued => by
  obtain ⟨f, -, -, hother⟩ := hw.queued _ hqueued
  exact hother i s hs rfl

/-- What stays the same of naps and of the attempts to settle a future, where neither the loop nor its futures change. -/
theorem Rested.still (hw : w.Rested) (h : w.Still v) : v.Rested :=
  hw.of_futures (by rw [h.loop]) fun id => by rw [outcome?, outcome?, h.futures]

theorem naps_retract (w : World) (i : StepId) : (w.retract i).loop.naps.Sublist w.loop.naps := by
  rw [loop_retract]
  split
  · exact w.loop.naps_cancel _
  · exact List.Sublist.refl _

theorem resettled_retract (w : World) (i : StepId) : (w.retract i).resettled = w.resettled := by
  unfold retract
  dsimp only
  split <;> split <;> rfl

/-- A nap ends with its future open, unless it was cancelled. -/
theorem Rested.rouse {l : Loop Callback} (hr : w.Rested) (hw : w.Wired)
    (hnext : w.loop.next? = some (some (.rouse id), l)) :
    (World.rouse { w with loop := l } id).Rested ∧ (World.rouse { w with loop := l } id).resettled = w.resettled := by
  have hnaps : w.loop.naps = id :: l.naps := Loop.naps_next hnext
  have htaken : Rested { w with loop := l } :=
    hr.of_futures (by rw [hnaps]; exact (List.sublist_cons_self id l.naps).subperm) fun _ => rfl
  have hlast : id ∉ l.naps := (List.nodup_cons.1 (hnaps ▸ hr.once)).1
  obtain ⟨heq, -⟩ | ⟨heq, hplain⟩ := rouse_cases { w with loop := l } id
  · rw [heq]
    exact ⟨htaken, rfl⟩
  · have hopen : World.isDone { w with loop := l } id = false :=
      isDone_eq_false.2 ((hr.free id (by rw [hnaps]; exact .head _)).resolve_right hplain)
    rw [heq]
    exact ⟨htaken.settle (u := { w with loop := l }) hw rfl (.of_eq rfl) hopen (.inr fun h => hlast (Loop.mem_naps.2 h)),
      resettled_settle hopen _⟩

/-- No part settles a future that is settled. -/
theorem Part.rested (h : Part b n w v) (hw : w.Wired) (hr : w.Rested) : v.Rested ∧ v.resettled = w.resettled := by
  cases h with
  | still hstill => exact ⟨hr.still hstill, hstill.resettled⟩
  | clock => exact ⟨hr.of_futures (List.Perm.subperm (.refl _)) fun _ => rfl, rfl⟩
  | @addFuture _ _ _ _ f hopen _ hstill =>
    have hadded : (w.addFuture f).2.Rested :=
      hr.of_futures (List.Perm.subperm (.refl _)) fun id => outcome?_of_push rfl hopen id
    exact ⟨hadded.still hstill, hstill.resettled⟩
  | @soon _ _ _ c hc => exact ⟨hr.admits hc (w.loop.naps_soon c) fun _ => rfl, rfl⟩
  | @later _ _ _ delay c hc => exact ⟨hr.admits hc (w.loop.naps_later delay c) fun _ => rfl, rfl⟩
  | dropTimer _ timer => exact ⟨hr.of_futures (w.loop.naps_cancel timer).subperm fun _ => rfl, rfl⟩
  | await _ future j =>
    refine ⟨hr.of_futures ?_ fun id => outcome?_whenDone w future (.wake j) id, ?_⟩
    · unfold whenDone
      split
      · exact (w.loop.naps_soon (.wake j)).subperm
      · exact List.Perm.subperm (.refl _)
    · unfold whenDone
      split <;> rfl
  | settle _ o hopen hnap => exact ⟨hr.settle hw rfl (.of_eq rfl) hopen hnap, resettled_settle hopen _⟩
  | cancel _ hopen => exact ⟨hr.settle hw rfl (.of_eq rfl) hopen (.inl rfl), resettled_settle hopen _⟩
  | @release _ _ _ u _ i s o hs hopen hretract _ hstill =>
    have hfutures : u.futures = w.futures := hretract.futures.trans (futures_retract w i)
    have hu : u.Rested := (hr.of_futures (naps_retract w i).subperm fun id => by
      rw [outcome?, outcome?, futures_retract]).still hretract
    have huopen : u.isDone s.future = false := by rw [isDone, outcome?, hfutures, ← outcome?, ← isDone, hopen]
    have hnap : ¬ u.loop.Queued (.rouse s.future) := fun hqueued => by
      rw [hretract.loop, ← Loop.mem_naps] at hqueued
      exact hw.step_no_nap hs (Loop.mem_naps.1 ((naps_retract w i).subset hqueued))
    have hsettled : (u.settle s.future o).Rested := hu.settle hw hfutures
      ((light_retract w i).steps.trans (.of_eq hretract.steps)) huopen (.inr hnap)
    refine ⟨hsettled.still hstill, hstill.resettled.trans ((resettled_settle huopen o).trans ?_)⟩
    exact hretract.resettled.trans (resettled_retract w i)
  | next hnext =>
    refine ⟨hr.of_futures ?_ fun _ => rfl, rfl⟩
    rw [Loop.naps_next hnext]
    exact (List.sublist_append_right _ _).subperm
  | @retract _ _ i l hnext =>
    refine ⟨hr.of_futures ?_ fun id => by rw [outcome?, outcome?, futures_retract], resettled_retract _ i⟩
    rw [Loop.naps_next hnext]
    exact (naps_retract { w with loop := l } i).subperm.trans (List.sublist_append_right _ _).subperm
  | rouse hnext => exact hr.rouse hw hnext
  | install =>
    obtain ⟨message, heq⟩ := installStep_eq w
    rw [heq]
    exact ⟨hr.of_futures (w.loop.naps_later w.gate.interval (.elapse w.gate.steps.size)).subperm
      fun id => outcome?_of_push rfl rfl id, rfl⟩

/-- Nothing that happens to a bridge settles a future that is settled. -/
theorem PartsOf.rested (h : PartsOf b n w v) (hr : w.Rested) : v.Rested ∧ v.resettled = w.resettled := by
  refine h.keeps (I := fun u => u.Rested ∧ u.resettled = w.resettled) (fun u x hu hpart hrested => ?_) ⟨hr, rfl⟩
  obtain ⟨hx, hsame⟩ := hpart.rested hu hrested.1
  exact ⟨hx, hsame.trans hrested.2⟩

theorem Fresh.rested (h : w.Fresh) : w.Rested := by
  have hnone : w.loop.naps = [] := by
    rw [Loop.naps, h.ready, h.timers]
    rfl
  exact ⟨by rw [hnone]; exact .nil, fun id hid => by rw [hnone] at hid; cases hid⟩

end World

end SteppedLogo
