import Mathlib.Data.List.TakeWhile
import SteppedLogo.Proofs.Schedule.Clock
import SteppedLogo.Proofs.Schedule.Queued

namespace SteppedLogo.Loop

variable {α : Type} {l l' : Loop α} {t u : Timer α} {ts : List (Timer α)} {timer other : TimerId} {due : Float} {c d : α}

/-- No timer is due before one that is in front of it. -/
def Ordered (ts : List (Timer α)) : Prop := ts.Pairwise fun t u => ¬ u.due < t.due

theorem Ordered.insertByDue (h : Ordered ts) (t : Timer α) : Ordered (insertByDue t ts) := by
  induction ts with
  | nil => exact List.pairwise_singleton _ t
  | cons u rest ih =>
    obtain ⟨hfirst, hrest⟩ := List.pairwise_cons.1 h
    unfold Loop.insertByDue
    split
    · next hearlier =>
      refine List.pairwise_cons.2 ⟨fun v hv hlater => ?_, h⟩
      obtain rfl | hv := List.mem_cons.1 hv
      · exact not_later_of_earlier hearlier hlater
      · exact hfirst v hv (earlier_trans hlater hearlier)
    · next hlater =>
      refine List.pairwise_cons.2 ⟨fun v hv => ?_, ih hrest⟩
      obtain rfl | hv := mem_insertByDue.1 hv
      · exact hlater
      · exact hfirst v hv

/-- The timers are in order, and the iteration that is under way is one of callbacks that are ready. -/
structure Regular (l : Loop α) : Prop where
  ordered : Ordered l.timers
  batch : l.batch ≤ l.ready.length

theorem Regular.append (h : l.Regular) (rs : List (Ready α)) : Regular { l with ready := l.ready ++ rs } := by
  refine ⟨h.ordered, Nat.le_trans h.batch ?_⟩
  rw [List.length_append]
  exact Nat.le_add_right _ _

theorem Regular.soon (h : l.Regular) (c : α) : (l.soon c).Regular := h.append _

theorem Regular.later (h : l.Regular) (delay : Float) (c : α) : (l.later delay c).2.Regular :=
  ⟨h.ordered.insertByDue _, h.batch⟩

theorem Regular.cancel (h : l.Regular) (timer : TimerId) : (l.cancel timer).Regular := by
  refine ⟨h.ordered.filter _, ?_⟩
  change l.batch ≤ (l.ready.map (Ready.drop timer)).length
  rw [List.length_map]
  exact h.batch

theorem Regular.gathered (h : l.Regular) : l.gathered.Regular := by
  unfold Loop.gathered
  split
  · exact ⟨h.ordered.sublist (List.dropWhile_sublist _), Nat.le_refl _⟩
  · exact h

theorem Regular.next? (h : l.Regular) {d : Option α} (hnext : l.next? = some (d, l')) : l'.Regular := by
  obtain ⟨r, rest, hready, -, rfl⟩ := next?_eq_some hnext
  have hbatch := h.gathered.batch
  rw [hready, List.length_cons] at hbatch
  exact ⟨h.gathered.ordered, Nat.sub_le_of_le_add hbatch⟩

/-- A callback is waited for that is due at a given time: it is behind its timer, or the time has come and it is ready. -/
structure Holds (l : Loop α) (timer : TimerId) (due : Float) (c : α) : Prop where
  timers : ∀ t ∈ l.timers, t.callback = c → t = ⟨timer, due, c⟩
  ready : ∀ r ∈ l.ready, r.callback = some c → r = ⟨some timer, some c⟩ ∧ ¬ l.clock < due
  queued : ⟨timer, due, c⟩ ∈ l.timers ∨ ⟨some timer, some c⟩ ∈ l.ready

theorem holds_later (delay : Float) (hnot : ¬ l.Queued c) :
    (l.later delay c).2.Holds l.nextTimer (l.clock + delay) c where
  timers t ht hc := by
    obtain rfl | ht := mem_insertByDue.1 ht
    · rfl
    · exact absurd (.inr ⟨t, ht, hc⟩) hnot
  ready r hr hc := absurd (.inl ⟨r, hr, hc⟩) hnot
  queued := .inl (mem_insertByDue.2 (.inl rfl))

/-- Callbacks may become ready that are other ones. -/
theorem Holds.append (h : l.Holds timer due c) {ds : List α} (hne : c ∉ ds) :
    Holds { l with ready := l.ready ++ ds.map fun d => { callback := some d } } timer due c where
  timers := h.timers
  ready r hr hc := by
    obtain hr | hr := List.mem_append.1 hr
    · exact h.ready r hr hc
    · obtain ⟨d, hd, rfl⟩ := List.mem_map.1 hr
      cases hc
      exact absurd hd hne
  queued := h.queued.imp_right fun hr => List.mem_append.2 (.inl hr)

theorem Holds.soon (h : l.Holds timer due c) (hne : d ≠ c) : (l.soon d).Holds timer due c :=
  have hother : c ∉ [d] := fun hmem => hne (List.mem_singleton.1 hmem).symm
  h.append hother

theorem Holds.later (h : l.Holds timer due c) (delay : Float) (hne : d ≠ c) : (l.later delay d).2.Holds timer due c where
  timers t ht hc := by
    obtain rfl | ht := mem_insertByDue.1 ht
    · exact absurd hc hne
    · exact h.timers t ht hc
  ready := h.ready
  queued := h.queued.imp_left fun ht => mem_insertByDue.2 (.inr ht)

/-- Another timer may be stopped. -/
theorem Holds.cancel (h : l.Holds timer due c) (hne : other ≠ timer) : (l.cancel other).Holds timer due c where
  timers t ht hc := h.timers t (List.mem_filter.1 ht).1 hc
  ready r hr hc := by
    obtain ⟨s, hs, rfl⟩ := List.mem_map.1 hr
    unfold Ready.drop at hc ⊢
    split at hc
    · cases hc
    · next hkept =>
      rw [if_neg hkept]
      exact h.ready s hs hc
  queued := by
    refine h.queued.imp (fun ht => List.mem_filter.2 ⟨ht, ?_⟩) fun hr => List.mem_map.2 ⟨_, hr, ?_⟩
    · exact bne_iff_ne.2 fun h => hne h.symm
    · rw [Ready.drop, if_neg fun h => hne (Option.some.inj h).symm]

/-- The clock may go on. -/
theorem Holds.setClock (h : l.Holds timer due c) {clock : Float} (honward : l.clock ≤ clock) :
    (l.setClock clock).Holds timer due c where
  timers := h.timers
  ready r hr hc := ⟨(h.ready r hr hc).1, fun hlater => (h.ready r hr hc).2 (earlier_of_le honward hlater)⟩
  queued := h.queued

/-- Whose time has come becomes ready when an iteration begins. -/
theorem Holds.gather (h : l.Holds timer due c) : l.gather.Holds timer due c where
  timers t ht hc := h.timers t ((List.dropWhile_sublist _).subset ht) hc
  ready r hr hc := by
    obtain hr | hr := List.mem_append.1 hr
    · exact h.ready r hr hc
    · obtain ⟨t, ht, rfl⟩ := List.mem_map.1 hr
      obtain rfl := h.timers t ((List.takeWhile_sublist _).subset ht) (Option.some.inj hc)
      have hdue : ¬ l.clock < due := by simpa [isDue] using List.mem_takeWhile_imp ht
      exact ⟨rfl, hdue⟩
  queued := by
    obtain ht | hr := h.queued
    · rw [← List.takeWhile_append_dropWhile (p := isDue l.clock) (l := l.timers)] at ht
      obtain ht | ht := List.mem_append.1 ht
      · exact .inr (List.mem_append.2 (.inr (List.mem_map.2 ⟨_, ht, rfl⟩)))
      · exact .inl ht
    · exact .inr (List.mem_append.2 (.inl hr))

theorem Holds.gathered (h : l.Holds timer due c) : l.gathered.Holds timer due c := by
  unfold Loop.gathered
  split
  · exact h.gather
  · exact h

theorem clock_gathered (l : Loop α) : l.gathered.clock = l.clock := by
  unfold gathered
  split <;> rfl

/-- A callback is not called before it is due, and while other ones are called it is still waited for. -/
theorem Holds.next? (h : l.Holds timer due c) {d : Option α} (hnext : l.next? = some (d, l')) :
    (d = some c → ¬ l.clock < due) ∧ (d ≠ some c → l'.Holds timer due c) := by
  obtain ⟨r, rest, hready, rfl, rfl⟩ := next?_eq_some hnext
  have hgathered := h.gathered
  have hmem (s : Ready α) (hs : s ∈ rest) : s ∈ l.gathered.ready := hready ▸ .tail _ hs
  refine ⟨fun hc => ?_, fun hne => ⟨hgathered.timers, fun s hs hc => hgathered.ready s (hmem s hs) hc, ?_⟩⟩
  · rw [← l.clock_gathered]
    exact (hgathered.ready r (hready ▸ .head _) hc).2
  · refine hgathered.queued.imp_right fun hr => ?_
    rw [hready] at hr
    obtain rfl | hr := List.mem_cons.1 hr
    · exact absurd rfl hne
    · exact hr

theorem ready_of_next?_eq_none (hnext : l.next? = none) : l.gathered.ready = [] := by
  unfold Loop.next? at hnext
  dsimp only at hnext
  split at hnext
  · assumption
  · cases hnext

/-- Where nothing is ready, the times of all timers are still to come. -/
theorem not_le_clock_of_next? (hregular : l.Regular) (hnext : l.next? = none) (ht : t ∈ l.timers) : ¬ t.due ≤ l.clock := by
  have hready := ready_of_next?_eq_none hnext
  have hzero : l.batch = 0 := by
    by_contra hne
    rw [Loop.gathered, if_neg hne] at hready
    have hbatch := hregular.batch
    rw [hready] at hbatch
    exact hne (Nat.le_zero.1 hbatch)
  rw [Loop.gathered, if_pos hzero] at hready
  obtain ⟨-, hdue⟩ := List.append_eq_nil_iff.1 hready
  have hnone : l.timers.takeWhile (isDue l.clock) = [] := List.map_eq_nil_iff.1 hdue
  have hordered := hregular.ordered
  cases htimers : l.timers with
  | nil =>
    rw [htimers] at ht
    cases ht
  | cons first rest =>
    rw [htimers] at hnone ht hordered
    have hfirst : l.clock < first.due := by
      by_contra hlater
      rw [List.takeWhile_cons_of_pos (by simp [isDue, hlater])] at hnone
      cases hnone
    intro hle
    have hearlier : t.due < first.due := earlier_of_le hle hfirst
    obtain rfl | ht := List.mem_cons.1 ht
    · exact not_later_of_earlier hearlier hearlier
    · exact (List.pairwise_cons.1 hordered).1 t ht hearlier

/-- Where nothing is ready, what is waited for is not due yet. -/
theorem Holds.not_due (h : l.Holds timer due c) (hregular : l.Regular) (hnext : l.next? = none) : ¬ due ≤ l.clock := by
  obtain ht | hr := h.queued
  · exact not_le_clock_of_next? (t := ⟨timer, due, c⟩) hregular hnext ht
  · have hready := ready_of_next?_eq_none hnext
    unfold Loop.gathered at hready
    split at hready
    · rw [(List.append_eq_nil_iff.1 hready).1] at hr
      cases hr
    · rw [hready] at hr
      cases hr

end SteppedLogo.Loop
