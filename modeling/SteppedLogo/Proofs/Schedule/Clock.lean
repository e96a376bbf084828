import Mathlib.Data.Int.Order.Basic
import Mathlib.Data.Prod.Lex
import Mathlib.Order.Compare
import SteppedLogo.Schedule.Loop

namespace SteppedLogo

open Float.Model

/-- The place of a number in the order of all; not-a-number has none. -/
def place? : UnpackedFloat → Option (ℤ ×ₗ ℤ ×ₗ ℤ)
  | .notANumber => none
  | .infinity .negative => some (toLex (-2, toLex (0, 0)))
  | .finite .negative mantissa exponent _ => some (toLex (-1, toLex (-exponent, -(mantissa : ℤ))))
  | .zero _ => some (toLex (0, toLex (0, 0)))
  | .finite .positive mantissa exponent _ => some (toLex (1, toLex (exponent, (mantissa : ℤ))))
  | .infinity .positive => some (toLex (2, toLex (0, 0)))

/-- Pairs are compared by their first parts and, where these are equal, by their second. -/
theorem compare_toLex {α β : Type} [LinearOrder α] [LinearOrder β] (a c : α) (b d : β) :
    compare (toLex (a, b)) (toLex (c, d)) = (compare a c).then (compare b d) := by
  rw [Prod.Lex.compare_def]
  rfl

theorem compare_neg_neg (a b : ℤ) : compare (-a) (-b) = (compare a b).swap := by
  obtain h | rfl | h := lt_trichotomy a b
  · rw [compare_lt_iff_lt.2 h, compare_gt_iff_gt.2 (Int.neg_lt_neg h)]
    rfl
  · rw [compare_eq_iff_eq.2 rfl, compare_eq_iff_eq.2 rfl]
    rfl
  · rw [compare_gt_iff_gt.2 h, compare_lt_iff_lt.2 (Int.neg_lt_neg h)]
    rfl

theorem compare_natCast (m n : ℕ) : compare (m : ℤ) n = compare m n := by
  obtain h | rfl | h := lt_trichotomy m n
  · rw [compare_lt_iff_lt.2 h, compare_lt_iff_lt.2 (Int.ofNat_lt.2 h)]
  · rw [compare_eq_iff_eq.2 rfl, compare_eq_iff_eq.2 rfl]
  · rw [compare_gt_iff_gt.2 h, compare_gt_iff_gt.2 (Int.ofNat_lt.2 h)]

/-- Numbers compare as their places do. -/
theorem compare_eq_place (x y : UnpackedFloat) :
    x.compare y = (place? x).bind fun a => (place? y).map fun b => compare a b := by
  obtain (_ | _) | _ | (_ | _) | ⟨_ | _, m, e, hm⟩ := x <;>
    obtain (_ | _) | _ | (_ | _) | ⟨_ | _, n, f, hn⟩ := y
  case finite.negative.finite.negative =>
    change some ((compare e f).then (compare m n)).swap =
      some (compare (toLex ((-1 : ℤ), toLex (-e, -(m : ℤ)))) (toLex (-1, toLex (-f, -(n : ℤ)))))
    rw [compare_toLex, compare_toLex, compare_neg_neg e, compare_neg_neg (m : ℤ), compare_natCast, Ordering.swap_then]
    rfl
  case finite.positive.finite.positive =>
    change some ((compare e f).then (compare m n)) =
      some (compare (toLex ((1 : ℤ), toLex (e, (m : ℤ)))) (toLex (1, toLex (f, (n : ℤ)))))
    rw [compare_toLex, compare_toLex, compare_natCast]
    rfl
  all_goals rfl

variable {a b c : Float}

/-- One double is below another exactly if both are numbers or infinite and the place of the one is below that of the other.
-/
theorem lt_iff_place : a < b ↔
    ∃ p q, place? a.toModel.unpack = some p ∧ place? b.toModel.unpack = some q ∧ p < q := by
  have hcompare : a < b ↔ a.toModel.unpack.compare b.toModel.unpack = some .lt := by
    change Float.lt a b = true ↔ _
    rw [Float.lt, decide_eq_true_iff]
    change Float.Model.lt _ _ = true ↔ _
    rw [Float.Model.lt, UnpackedFloat.lt, beq_iff_eq]
  rw [hcompare, compare_eq_place]
  cases place? a.toModel.unpack <;> cases place? b.toModel.unpack <;> simp [compare_lt_iff_lt]

/-- One double is at most another exactly if both are numbers or infinite and the place of the one is at most that of the
other. -/
theorem le_iff_place : a ≤ b ↔
    ∃ p q, place? a.toModel.unpack = some p ∧ place? b.toModel.unpack = some q ∧ p ≤ q := by
  have hcompare : a ≤ b ↔ (a.toModel.unpack.compare b.toModel.unpack).any (·.isLE) = true := by
    change Float.le a b = true ↔ _
    rw [Float.le, decide_eq_true_iff]
    change Float.Model.le _ _ = true ↔ _
    rw [Float.Model.le, UnpackedFloat.le]
  have hle (p q : ℤ ×ₗ ℤ ×ₗ ℤ) : (compare p q).isLE = true ↔ p ≤ q := by
    rw [Ordering.isLE_iff_ne_gt, compare_gt_iff_gt, not_lt]
  rw [hcompare, compare_eq_place]
  cases place? a.toModel.unpack <;> cases place? b.toModel.unpack <;> simp [hle]

/-- What is earlier than something earlier is earlier. -/
theorem earlier_trans (hab : a < b) (hbc : b < c) : a < c := by
  obtain ⟨p, q, hp, hq, hlt⟩ := lt_iff_place.1 hab
  obtain ⟨q', r, hq', hr, hlt'⟩ := lt_iff_place.1 hbc
  rw [hq] at hq'
  cases hq'
  exact lt_iff_place.2 ⟨p, r, hp, hr, hlt.trans hlt'⟩

/-- What is not after something earlier is earlier. -/
theorem earlier_of_le (hab : a ≤ b) (hbc : b < c) : a < c := by
  obtain ⟨p, q, hp, hq, hle⟩ := le_iff_place.1 hab
  obtain ⟨q', r, hq', hr, hlt⟩ := lt_iff_place.1 hbc
  rw [hq] at hq'
  cases hq'
  exact lt_iff_place.2 ⟨p, r, hp, hr, hle.trans_lt hlt⟩

/-- What is earlier is not later. -/
theorem not_later_of_earlier (hab : a < b) : ¬ b < a := by
  intro hba
  obtain ⟨p, q, hp, hq, hlt⟩ := lt_iff_place.1 (earlier_trans hab hba)
  rw [hp] at hq
  cases hq
  exact lt_irrefl _ hlt

end SteppedLogo

namespace SteppedLogo.Loop

variable {α : Type} {l : Loop α} {c : α} {cs ds : List α} {t : Timer α}

/-- The callbacks `cs` are ready, in this order, and no timer is set. -/
structure Queues (l : Loop α) (cs : List α) : Prop where
  ready : l.ready = cs.map fun c => { callback := some c }
  timers : l.timers = []
  batch : l.batch ≤ cs.length

/-- Nothing is ready, and a single timer is set. -/
structure Times (l : Loop α) (t : Timer α) : Prop where
  ready : l.ready = []
  timers : l.timers = [t]
  batch : l.batch = 0

/-- Callbacks added to the end of a queue that holds some are queued behind them. -/
theorem Queues.append (h : l.Queues cs) (ds : List α) :
    ({ l with ready := l.ready ++ ds.map fun c => { callback := some c } } : Loop α).Queues (cs ++ ds) := by
  refine ⟨?_, h.timers, ?_⟩
  · rw [h.ready, List.map_append]
  · rw [List.length_append]
    exact Nat.le_trans h.batch (Nat.le_add_right _ _)

theorem Queues.soon (h : l.Queues cs) (c : α) : (l.soon c).Queues (cs ++ [c]) := h.append [c]

/-- Cancelling a timer leaves a queue without timers as it is. -/
theorem Queues.cancel (h : l.Queues cs) (id : TimerId) : (l.cancel id).Queues cs := by
  refine ⟨?_, ?_, h.batch⟩
  · change l.ready.map (Ready.drop id) = _
    rw [h.ready, List.map_map]
    rfl
  · change l.timers.filter _ = []
    rw [h.timers]
    rfl

theorem Queues.setClock (h : l.Queues cs) (clock : Float) : (l.setClock clock).Queues cs := ⟨h.ready, h.timers, h.batch⟩

/-- A timer set in an empty loop is the only thing it holds. -/
theorem Queues.later (h : l.Queues []) (delay : Float) (c : α) :
    (l.later delay c).2.Times ⟨l.nextTimer, l.clock + delay, c⟩ := by
  refine ⟨h.ready, ?_, Nat.le_zero.1 h.batch⟩
  change insertByDue _ l.timers = _
  rw [h.timers]
  rfl

/-- A timer that is stopped at once is not left behind. -/
theorem Queues.later_cancel (h : l.Queues cs) (delay : Float) (c : α) :
    ((l.later delay c).2.cancel l.nextTimer).Queues cs := by
  refine ⟨?_, ?_, h.batch⟩
  · change l.ready.map (Ready.drop l.nextTimer) = _
    rw [h.ready, List.map_map]
    rfl
  · change (insertByDue _ l.timers).filter _ = []
    rw [h.timers]
    simp [insertByDue]

theorem Queues.next?_nil (h : l.Queues []) : l.next? = none := by
  have hbatch : l.batch = 0 := Nat.le_zero.1 h.batch
  simp [Loop.next?, gather, hbatch, h.ready, h.timers]

/-- What is ready is called in its order. -/
theorem Queues.next? (h : l.Queues (c :: cs)) : ∃ l', l.next? = some (some c, l') ∧ l'.Queues cs := by
  have hready : l.ready = { callback := some c } :: cs.map fun c => { callback := some c } := h.ready
  by_cases hbatch : l.batch = 0
  · refine ⟨{ l with ready := cs.map fun c => { callback := some c }, batch := cs.length, timers := [] }, ?_,
      rfl, rfl, Nat.le_refl _⟩
    simp [Loop.next?, hbatch, gather, h.timers, hready]
  · refine ⟨{ l with ready := cs.map fun c => { callback := some c }, batch := l.batch - 1 }, ?_, rfl, h.timers,
      Nat.sub_le_of_le_add h.batch⟩
    simp [Loop.next?, hbatch, hready]

/-- Cancelling the only timer leaves the loop empty. -/
theorem Times.cancel (h : l.Times t) : (l.cancel t.id).Queues [] := by
  refine ⟨?_, ?_, Nat.le_of_eq h.batch⟩
  · change l.ready.map _ = _
    rw [h.ready]
    rfl
  · change l.timers.filter _ = []
    rw [h.timers]
    simp

theorem Times.setClock (h : l.Times t) (clock : Float) : (l.setClock clock).Times t := ⟨h.ready, h.timers, h.batch⟩

/-- A timer that is due is called back. -/
theorem Times.next? (h : l.Times t) (hdue : ¬ l.clock < t.due) :
    ∃ l', l.next? = some (some t.callback, l') ∧ l'.Queues [] := by
  refine ⟨{ l with ready := [], batch := 0, timers := [] }, ?_, rfl, rfl, Nat.le_refl _⟩
  simp [Loop.next?, gather, h.ready, h.timers, h.batch, isDue, hdue]

/-- A loop that only holds a timer has nothing to call before it is due. -/
theorem Times.next?_early (h : l.Times t) (hearly : l.clock < t.due) : l.next? = none := by
  simp [Loop.next?, gather, h.ready, h.timers, h.batch, isDue, hearly]

/-- The earliest timer is the only one, at its time. -/
theorem Times.earliest? (h : l.Times t) : l.earliest? = some t.due := by
  rw [Loop.earliest?, h.timers]
  rfl

/-- Once the clock has been moved to where a timer is due, it is. -/
theorem not_early (due : Float) : ¬ due < due := fun h => not_later_of_earlier h h

end SteppedLogo.Loop
