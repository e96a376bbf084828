import Mathlib.Data.List.Basic
import SteppedLogo.Schedule.Loop

namespace SteppedLogo.Loop

variable {α : Type}

/-- A callback that is ready, or will be once its timer is due. -/
def Queued (l : Loop α) (c : α) : Prop :=
  (∃ r ∈ l.ready, r.callback = some c) ∨ ∃ t ∈ l.timers, t.callback = c

@[simp]
theorem queued_soon {l : Loop α} {c d : α} : (l.soon c).Queued d ↔ l.Queued d ∨ d = c := by
  simp only [Queued, soon, List.mem_append, List.mem_singleton]
  constructor
  · rintro (⟨r, hr | rfl, hc⟩ | ht)
    · exact .inl (.inl ⟨r, hr, hc⟩)
    · exact .inr (Option.some.inj hc).symm
    · exact .inl (.inr ht)
  · rintro ((⟨r, hr, hc⟩ | ht) | rfl)
    · exact .inl ⟨r, .inl hr, hc⟩
    · exact .inr ht
    · exact .inl ⟨_, .inr rfl, rfl⟩

theorem mem_insertByDue {t u : Timer α} {ts : List (Timer α)} :
    u ∈ insertByDue t ts ↔ u = t ∨ u ∈ ts := by
  induction ts with
  | nil => simp [insertByDue]
  | cons v rest ih =>
    simp only [insertByDue]
    split <;> simp [ih]
    tauto

@[simp]
theorem queued_later {l : Loop α} {delay : Float} {c d : α} :
    (l.later delay c).2.Queued d ↔ l.Queued d ∨ d = c := by
  simp only [Queued, later, mem_insertByDue]
  constructor
  · rintro (hr | ⟨t, rfl | ht, hc⟩)
    · exact .inl (.inl hr)
    · exact .inr hc.symm
    · exact .inl (.inr ⟨t, ht, hc⟩)
  · rintro ((hr | ⟨t, ht, hc⟩) | rfl)
    · exact .inl hr
    · exact .inr ⟨t, .inr ht, hc⟩
    · exact .inr ⟨_, .inl rfl, rfl⟩

/-- What is read off the callbacks of a queue loses what the stopped timer had, and nothing else. -/
theorem filterMap_cancel {β : Type} (l : Loop α) (id : TimerId) (read : α → Option β) :
    ((l.cancel id).ready.filterMap fun r => r.callback.bind read).Sublist
      (l.ready.filterMap fun r => r.callback.bind read) := by
  simp only [cancel]
  induction l.ready with
  | nil => exact List.Sublist.refl _
  | cons r rest ih =>
    rw [List.map_cons]
    by_cases hr : r.timer = some id
    · rw [Ready.drop, if_pos hr, List.filterMap_cons]
      exact ih.trans ((List.sublist_cons_self r rest).filterMap _)
    · rw [Ready.drop, if_neg hr, List.filterMap_cons, List.filterMap_cons]
      split
      · exact ih
      · exact ih.cons_cons _

theorem Queued.of_cancel {l : Loop α} {id : TimerId} {c : α} (hq : (l.cancel id).Queued c) :
    l.Queued c := by
  obtain ⟨r, hr, hc⟩ | ⟨t, ht, hc⟩ := hq
  · obtain ⟨s, hs, rfl⟩ := List.mem_map.1 hr
    refine .inl ⟨s, hs, ?_⟩
    unfold Ready.drop at hc
    split at hc
    · cases hc
    · exact hc
  · exact .inr ⟨t, (List.mem_filter.1 ht).1, hc⟩

theorem queued_gather {l : Loop α} {c : α} : l.gather.Queued c ↔ l.Queued c := by
  have hsplit : ∀ t, t ∈ l.timers ↔
      t ∈ l.timers.takeWhile (isDue l.clock) ∨ t ∈ l.timers.dropWhile (isDue l.clock) := by
    intro t
    rw [← List.mem_append, List.takeWhile_append_dropWhile]
  simp only [Queued, gather, List.mem_append, List.mem_map]
  constructor
  · rintro (⟨r, hr | ⟨t, ht, rfl⟩, hc⟩ | ⟨t, ht, hc⟩)
    · exact .inl ⟨r, hr, hc⟩
    · exact .inr ⟨t, (hsplit t).2 (.inl ht), Option.some.inj hc⟩
    · exact .inr ⟨t, (hsplit t).2 (.inr ht), hc⟩
  · rintro (⟨r, hr, hc⟩ | ⟨t, ht, hc⟩)
    · exact .inl ⟨r, .inl hr, hc⟩
    · obtain ht | ht := (hsplit t).1 ht
      · exact .inl ⟨_, .inr ⟨t, ht, rfl⟩, by rw [hc]⟩
      · exact .inr ⟨t, ht, hc⟩

/-- The loop after its iteration has begun, if none was under way. -/
def gathered (l : Loop α) : Loop α := if l.batch = 0 then l.gather else l

theorem queued_gathered {l : Loop α} {c : α} : l.gathered.Queued c ↔ l.Queued c := by
  unfold gathered
  split
  · exact queued_gather
  · exact Iff.rfl

theorem next?_eq_some {l l' : Loop α} {c : Option α} (hnext : l.next? = some (c, l')) :
    ∃ r rest, l.gathered.ready = r :: rest ∧ c = r.callback ∧
      l' = { l.gathered with ready := rest, batch := l.gathered.batch - 1 } := by
  unfold next? at hnext
  dsimp only at hnext
  split at hnext
  · cases hnext
  · next r rest hready =>
    simp only [Option.some.injEq, Prod.mk.injEq] at hnext
    exact ⟨r, rest, hready, hnext.1.symm, hnext.2.symm⟩

/-- Taking a callback takes one that was queued, and queues nothing. -/
theorem Queued.of_next? {l l' : Loop α} {c : Option α} (hnext : l.next? = some (c, l')) :
    (∀ d, l'.Queued d → l.Queued d) ∧ ∀ d, c = some d → l.Queued d := by
  obtain ⟨r, rest, hready, rfl, rfl⟩ := next?_eq_some hnext
  constructor
  · rintro d (⟨s, hs, hd⟩ | ht)
    · exact queued_gathered.1 (.inl ⟨s, by rw [hready]; exact .tail _ hs, hd⟩)
    · exact queued_gathered.1 (.inr ht)
  · intro d hd
    exact queued_gathered.1 (.inl ⟨r, by rw [hready]; exact .head _, hd⟩)

end SteppedLogo.Loop
