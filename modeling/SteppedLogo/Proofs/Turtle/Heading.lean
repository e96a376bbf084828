import SteppedLogo.Proofs.Decimal.Modulo
import SteppedLogo.Proofs.Turtle.Drawing

namespace SteppedLogo

open Decimal Decimal.Binary

/-- The angle that a move makes the heading of, where it turns the turtle. -/
def Move.angle? (t : Turtle) : Move → Option Float
  | right degrees => (addOperand t.heading degrees).toOption
  | left degrees => (subOperand t.heading degrees).toOption
  | heading degrees => (toFloat degrees).toOption
  | clearScreen => some 0.0
  | forward _ | back _ | setPos .. | up | down | color _ => none

/-- The angle given to a move is finite, if it is a number at all. -/
def Move.IsFinite : Move → Prop
  | right degrees | left degrees | heading degrees => ∀ x, toFloat degrees = .ok x → ∃ q, IsNumber x q
  | forward _ | back _ | setPos .. | up | down | color _ | clearScreen => True

def Stride.angle? (s : Stride) : Option Float := s.move.angle? s.before

namespace Turtle

/-- The angle of the last turn in a history, or that of a new turtle. -/
def lastAngle (t : Turtle) (moves : List Move) : Float :=
  ((t.strides moves).reverse.findSome? Stride.angle?).getD 0.0

theorem floorMod_zero : floorMod 0.0 360 = 0.0 := by
  have hbits : ofFloat 0.0 = .finite false 0 leastExponent := by decide +kernel
  have hnone : remainder 360 0 leastExponent = (0, leastExponent) := by
    rw [remainder, if_neg (by decide), Nat.zero_mod]
  rw [floorMod, hbits]
  dsimp only
  rw [hnone]
  exact if_pos rfl

/-- The heading is made of the angle of a turn, and stays as it is otherwise. -/
theorem after_heading (t : Turtle) (m : Move) :
    (t.after m).heading = ((m.angle? t).map (floorMod · 360)).getD t.heading := by
  rw [after_eq, apply_eq_call]
  cases m with
  | right degrees =>
    simp only [Move.call, Move.angle?]
    cases addOperand t.heading degrees <;> rfl
  | left degrees =>
    simp only [Move.call, Move.angle?]
    cases subOperand t.heading degrees <;> rfl
  | heading degrees =>
    simp only [Move.call, Move.angle?]
    cases toFloat degrees <;> rfl
  | clearScreen =>
    simp only [Move.angle?, Option.map_some, Option.getD_some, floorMod_zero]
    rfl
  | up | down | color spec => rfl
  | forward | back | setPos =>
    generalize hcall : Move.call t _ = result
    cases result with
    | error => rfl
    | ok u =>
      obtain ⟨_, rfl⟩ := Move.call_allows hcall
      rfl

theorem lastAngle_append_singleton (t : Turtle) (moves : List Move) (m : Move) :
    t.lastAngle (moves ++ [m]) = (m.angle? (t.run moves)).getD (t.lastAngle moves) := by
  have hangle : Stride.angle? ⟨t.run moves, m⟩ = m.angle? (t.run moves) := rfl
  rw [lastAngle, strides_append_singleton, List.reverse_concat, List.findSome?_cons, hangle]
  cases m.angle? (t.run moves) <;> rfl

/-- The heading is what a full circle leaves of the last angle. -/
theorem run_heading (t : Turtle) (ht : t.heading = 0.0) (moves : List Move) :
    (t.run moves).heading = floorMod (t.lastAngle moves) 360 := by
  induction moves using List.reverseRecOn with
  | nil => exact ht.trans floorMod_zero.symm
  | append_singleton moves m ih =>
    rw [run_append_singleton, lastAngle_append_singleton]
    change ((t.run moves).after m).heading = _
    rw [after_heading, ih]
    cases m.angle? (t.run moves) <;> rfl

end Turtle

/-- A result of an operation comes of an operand that is a number. -/
theorem toFloat_of_operand {v : Value} {y : Except Complaint Float} {f : Float → Float} {x : Float}
    (hv : operand? v = some y) (hx : (y.map f).toOption = some x) : ∃ z, toFloat v = .ok z ∧ f z = x := by
  have hy : toFloat v = y := by cases v <;> cases hv <;> rfl
  cases y with
  | error => cases hx
  | ok z => exact ⟨z, hy, Option.some.inj hx⟩

/-- Within the circle, a finite operand gives a finite sum and a finite difference. -/
theorem abs_lt_overflow {x : Float} {p q : ℚ} (hp : |p| ≤ 360) (hx : IsNumber x q) :
    |p + q| < overflow ∧ |p - q| < overflow := by
  have hq := (isNumber_iff_holds.1 hx).abs_le
  have hlarge : (720 : ℚ) < 2 ^ greatestExponent := calc
    (720 : ℚ) < 2 ^ (10 : ℤ) := by norm_num
    _ ≤ 2 ^ greatestExponent := zpow_le_zpow_right₀ one_le_two (by decide)
  have hroom : 360 + (2 ^ 53 - 1) * 2 ^ greatestExponent < overflow := by
    unfold overflow
    linarith
  exact ⟨by linarith [abs_add_le p q], by linarith [abs_sub p q]⟩

theorem Move.IsFinite.angle {t : Turtle} {m : Move} {p : ℚ} {x : Float} (hm : m.IsFinite)
    (ht : IsNumber t.heading p) (hp : |p| ≤ 360) (hx : m.angle? t = some x) : ∃ q, IsNumber x q := by
  cases m with
  | right degrees =>
    simp only [angle?, addOperand] at hx
    split at hx
    · next y hy =>
      obtain ⟨z, hz, rfl⟩ := toFloat_of_operand hy hx
      obtain ⟨q, hq⟩ := hm z hz
      obtain ⟨r, -, hr⟩ := ht.add hq (abs_lt_overflow hp hq).1
      exact ⟨r, hr⟩
    · cases hx
  | left degrees =>
    simp only [angle?, subOperand] at hx
    split at hx
    · next y hy =>
      obtain ⟨z, hz, rfl⟩ := toFloat_of_operand hy hx
      obtain ⟨q, hq⟩ := hm z hz
      obtain ⟨r, -, hr⟩ := ht.sub hq (abs_lt_overflow hp hq).2
      exact ⟨r, hr⟩
    · cases hx
  | heading degrees =>
    simp only [angle?] at hx
    cases hdegrees : toFloat degrees with
    | error => rw [hdegrees] at hx; cases hx
    | ok y =>
      rw [hdegrees] at hx
      cases hx
      exact hm _ hdegrees
  | clearScreen =>
    cases hx
    exact ⟨0, isNumber_zero⟩
  | up | down | color | forward | back | setPos => cases hx

namespace Turtle

theorem lastAngle_finite (t : Turtle) (ht : t.heading = 0.0) {moves : List Move} (hmoves : ∀ m ∈ moves, m.IsFinite) :
    ∃ p, IsNumber (t.lastAngle moves) p := by
  induction moves using List.reverseRecOn with
  | nil => exact ⟨0, isNumber_zero⟩
  | append_singleton moves m ih =>
    obtain ⟨p, hp⟩ := ih fun m' hm' => hmoves m' (List.mem_append_left _ hm')
    rw [lastAngle_append_singleton]
    cases hangle : m.angle? (t.run moves) with
    | none => exact ⟨p, hp⟩
    | some x =>
      obtain ⟨q, hq, hnonneg, hle, -⟩ := floorMod_circle hp
      rw [← run_heading t ht] at hq
      exact (hmoves m (by simp)).angle hq (by rwa [abs_of_nonneg hnonneg]) hangle

/-- From the heading 0, over every history whose angles are finite, refused moves included: the heading is `floorMod` of
the last angle by 360, a number from 0 to 360. It is below 360 exactly if that angle does not fall short of a multiple of
the circle by less than rounding keeps. -/
theorem heading_in_circle (t : Turtle) (moves : List Move) (ht : t.heading = 0.0) (hmoves : ∀ m ∈ moves, m.IsFinite) :
    (t.run moves).heading = floorMod (t.lastAngle moves) 360 ∧ ∃ p q, IsNumber (t.lastAngle moves) p ∧
      IsNumber (t.run moves).heading q ∧ 0 ≤ q ∧ q ≤ 360 ∧ (q < 360 ↔ ¬ FallsShort p) := by
  obtain ⟨p, hp⟩ := lastAngle_finite t ht hmoves
  obtain ⟨q, hq, hnonneg, hle, hall⟩ := floorMod_circle hp
  rw [← run_heading t ht] at hq
  exact ⟨run_heading t ht moves, p, q, hp, hq, hnonneg, hle, by rw [hle.lt_iff_ne, Ne, hall]⟩

/-- A turn to the right by more than a full circle, and one to the left by a degree. -/
theorem heading_of_turns : ∃ p, IsNumber (lastAngle {} [.right (.float 450.0), .left (.int 1)]) p ∧
    IsNumber (run {} [.right (.float 450.0), .left (.int 1)]).heading 89 ∧ ¬ FallsShort p := by
  have hfinite : ∀ m ∈ [Move.right (.float 450.0), .left (.int 1)], m.IsFinite := by
    simp only [List.forall_mem_cons]
    refine ⟨fun x hx => ?_, fun x hx => ?_, nofun⟩
    · cases hx
      have hbits : ofFloat 450.0 = .finite false (450 * 2 ^ 44) (-44) := by decide +kernel
      exact ⟨_, .of_binary hbits⟩
    · cases hx
      have hbits : ofFloat (if (1 : ℤ) < 0 then -Float.ofScientific (Int.natAbs 1) false 0
          else Float.ofScientific (Int.natAbs 1) false 0) = .finite false (2 ^ 52) (-52) := by decide +kernel
      exact ⟨_, .of_binary hbits⟩
  have hbits : ofFloat (run {} [.right (.float 450.0), .left (.int 1)]).heading =
      .finite false (89 * 2 ^ 46) (-46) := by decide +kernel
  have hheading : IsNumber (run {} [.right (.float 450.0), .left (.int 1)]).heading 89 := by
    convert IsNumber.of_binary hbits
    norm_num
  obtain ⟨-, p, q, hp, hq, -, -, hless⟩ := heading_in_circle {} _ rfl hfinite
  cases hq.unique hheading
  exact ⟨p, hp, hheading, hless.1 (by norm_num)⟩

/-- A turn to the left by next to nothing leaves a heading that is not less than the full circle. -/
theorem heading_not_below_circle : ¬ ∀ (t : Turtle) (moves : List Move), t.heading = 0.0 →
    (∀ m ∈ moves, m.IsFinite) → ∃ q, IsNumber (t.run moves).heading q ∧ 0 ≤ q ∧ q < 360 := by
  intro hbelow
  have hfinite : ∀ m ∈ [Move.left (.float 1e-20)], m.IsFinite := by
    simp only [List.forall_mem_cons]
    refine ⟨fun x hx => ?_, nofun⟩
    cases hx
    have hbits : ofFloat 1e-20 = .finite false 6646139978924579 (-119) := by decide +kernel
    exact ⟨_, .of_binary hbits⟩
  have hbits : ofFloat (run {} [.left (.float 1e-20)]).heading = .finite false (360 * 2 ^ 44) (-44) := by
    decide +kernel
  obtain ⟨q, hq, -, hless⟩ := hbelow {} _ rfl hfinite
  have hsame := hq.unique (.of_binary hbits)
  norm_num at hsame
  exact hless.ne hsame

end Turtle

end SteppedLogo
