import SteppedLogo.Proofs.Command.Atomic
import Mathlib.Data.List.DropRight

namespace SteppedLogo

/-- Where the turtle is put when the screen is cleared. -/
def Point.origin : Point := ⟨.real 0.0, .real 0.0⟩

namespace Move

/-- The operations that take the turtle to another place along a line. -/
def travels : Move → Bool
  | forward _ | back _ | setPos .. => true
  | right _ | left _ | heading _ | up | down | color _ | clearScreen => false

def clears : Move → Bool
  | clearScreen => true
  | forward _ | back _ | setPos .. | right _ | left _ | heading _ | up | down | color _ => false

/-- The part of the turtle that an operation may change. -/
def scope : Move → Scope
  | forward _ | back _ | setPos .. => .place
  | right _ | left _ | heading _ => .heading
  | up | down => .pen
  | color _ => .color
  | clearScreen => .screen

end Move

namespace Turtle

/-- The turtle that an operation leaves, also where it is refused. -/
def after (t : Turtle) (m : Move) : Turtle := (m.method.run.run t).2

/-- The turtle that a history of operations leaves. -/
def run (t : Turtle) (moves : List Move) : Turtle := moves.foldl after t

end Turtle

/-- One operation of a history, carried out on the turtle `before`. -/
structure Stride where
  before : Turtle
  move : Move

namespace Stride

def after (s : Stride) : Turtle := s.before.after s.move

/-- The turtle was moved: the operation is one that moves it, and was not refused. -/
def moved (s : Stride) : Bool := s.move.travels && (s.before.apply s.move).isOk

/-- What a move made with the pen down leaves on the screen: the line from the position before it to
    the one after it, in the color that the pen had. -/
def segment? (s : Stride) : Option Segment :=
  if s.moved && s.before.penDown then some ⟨s.before.position, s.after.position, s.before.penColor⟩
  else none

end Stride

/-- The operations of a history, each with the turtle that it found. -/
def Turtle.strides (t : Turtle) : List Move → List Stride
  | [] => []
  | m :: moves => ⟨t, m⟩ :: (t.after m).strides moves

theorem Turtle.run_append_singleton (t : Turtle) (moves : List Move) (m : Move) :
    t.run (moves ++ [m]) = Stride.after ⟨t.run moves, m⟩ := List.foldl_concat ..

theorem Turtle.strides_append_singleton (t : Turtle) (moves : List Move) (m : Move) :
    t.strides (moves ++ [m]) = t.strides moves ++ [⟨t.run moves, m⟩] := by
  induction moves generalizing t with
  | nil => rfl
  | cons m' moves ih => simp only [List.cons_append, strides, ih, run, List.foldl_cons]

/-- The operations since the screen was last cleared, or since the beginning. -/
def Stride.sinceCleared (strides : List Stride) : List Stride :=
  strides.rtakeWhile fun s => !s.move.clears

/-- Segments that lead from one point to another without a gap: the first one starts at the one
    point, each next one where the one before it ended, and the last one ends at the other point. -/
def Segment.Lead : Point → List Segment → Point → Prop
  | p, [], q => p = q
  | p, s :: rest, q => s.start = p ∧ Lead s.stop rest q

theorem Segment.Lead.append_singleton {p q : Point} {segments : List Segment} (h : Lead p segments q)
    (r : Point) (color : Value) : Lead p (segments ++ [⟨q, r, color⟩]) r := by
  induction segments generalizing p with
  | nil => exact ⟨Eq.symm h, rfl⟩
  | cons s rest ih => exact ⟨h.1, ih h.2⟩

/-- A move that returns has changed nothing out of its scope. -/
theorem Move.call_allows {m : Move} {t u : Turtle} (h : m.call t = .ok u) : m.scope.Allows t u := by
  cases m with
  | forward distance => exact Turtle.advance_allows h
  | back distance =>
    obtain ⟨opposite, -, h⟩ := ok_of_bind h
    exact Turtle.advance_allows h
  | setPos x y =>
    obtain ⟨x, -, h⟩ := ok_of_bind h
    obtain ⟨y, -, h⟩ := ok_of_bind h
    cases h
    exact ⟨_, rfl⟩
  | right degrees | left degrees | heading degrees =>
    obtain ⟨degrees, -, h⟩ := ok_of_bind h
    cases h
    exact ⟨_, rfl⟩
  | up | down | color spec =>
    cases h
    exact ⟨_, rfl⟩
  | clearScreen =>
    cases h
    rfl

namespace Turtle

variable {start : Turtle}

/-- A refused operation leaves the turtle as it was. -/
theorem after_eq (t : Turtle) (m : Move) : t.after m = (t.apply m).toOption.getD t := by
  unfold after
  rw [m.method_comesTo t, apply_eq_call]
  cases m.call t <;> rfl

/-- What an operation does to a drawing: it continues it to the new position, or clears it, or leaves
    it and the position as they are. -/
theorem after_cases (t : Turtle) (m : Move) :
    (Stride.moved ⟨t, m⟩ ∧ m.clears = false ∧ (t.after m).segments.toList =
      t.segments.toList ++ if t.penDown then [⟨t.position, (t.after m).position, t.penColor⟩] else []) ∨
    (Stride.moved ⟨t, m⟩ = false ∧ m.clears ∧ (t.after m).position = .origin ∧ (t.after m).segments.toList = []) ∨
    (Stride.moved ⟨t, m⟩ = false ∧ m.clears = false ∧ (t.after m).position = t.position ∧
      (t.after m).segments = t.segments) := by
  unfold Stride.moved
  rw [after_eq, apply_eq_call]
  cases hcall : m.call t with
  | error c =>
    have hstays : m.clears = false := by
      cases m with
      | clearScreen => cases hcall
      | _ => rfl
    exact .inr (.inr ⟨Bool.and_false _, hstays, rfl, rfl⟩)
  | ok u =>
    have hallows := Move.call_allows hcall
    cases m with
    | forward _ | back _ | setPos _ _ =>
      obtain ⟨stop, rfl⟩ := hallows
      refine .inl ⟨rfl, rfl, ?_⟩
      cases t.penDown <;> simp [Except.toOption]
    | clearScreen =>
      cases hallows
      exact .inr (.inl ⟨rfl, rfl, rfl, rfl⟩)
    | right _ | left _ | heading _ | up | down | color _ =>
      obtain ⟨_, rfl⟩ := hallows
      exact .inr (.inr ⟨rfl, rfl, rfl, rfl⟩)

end Turtle

namespace Stride

variable (s : Stride) (strides : List Stride)

theorem sinceCleared_append_singleton :
    sinceCleared (strides ++ [s]) = if s.move.clears then [] else sinceCleared strides ++ [s] := by
  unfold sinceCleared
  rw [List.rtakeWhile_concat]
  cases s.move.clears <;> rfl

/-- The segments after an operation. -/
theorem after_segments : s.after.segments.toList =
    if s.move.clears then [] else s.before.segments.toList ++ s.segment?.toList := by
  obtain ⟨t, m⟩ := s
  obtain ⟨hmoved, hstays, heq⟩ | ⟨-, hclears, -, heq⟩ | ⟨hmoved, hstays, -, heq⟩ := t.after_cases m
  · rw [if_neg (by simp [hstays]), after, heq, segment?, hmoved]
    cases t.penDown <;> rfl
  · rw [if_pos hclears, after, heq]
  · rw [if_neg (by simp [hstays]), after, heq, segment?, hmoved]
    exact (List.append_nil _).symm

/-- An operation with the pen down continues a drawing without a gap, unless it clears it. -/
theorem after_lead {p : Point} (hpen : s.before.penDown) (hstays : s.move.clears = false)
    (h : Segment.Lead p s.before.segments.toList s.before.position) :
    Segment.Lead p s.after.segments.toList s.after.position := by
  obtain ⟨t, m⟩ := s
  unfold after
  obtain ⟨-, -, heq⟩ | ⟨-, hclears, -⟩ | ⟨-, -, hposition, heq⟩ := t.after_cases m
  · rw [heq, if_pos hpen]
    exact h.append_singleton _ _
  · rw [hstays] at hclears
    cases hclears
  · rw [heq, hposition]
    exact h

/-- A cleared screen shows nothing, and the turtle is at the origin. -/
theorem after_lead_of_clears (h : s.move.clears) : Segment.Lead .origin s.after.segments.toList s.after.position := by
  obtain ⟨t, m⟩ := s
  unfold after
  obtain ⟨-, hstays, -⟩ | ⟨-, -, hposition, heq⟩ | ⟨-, hstays, -⟩ := t.after_cases m
  · exact absurd h (by simp [hstays])
  · rw [heq, hposition]
    rfl
  · exact absurd h (by simp [hstays])

end Stride

namespace Turtle

open Stride

variable (t : Turtle) (moves : List Move)

theorem run_segments : (t.run moves).segments.toList =
    (if moves.any Move.clears then [] else t.segments.toList) ++ (sinceCleared (t.strides moves)).filterMap segment? := by
  induction moves using List.reverseRecOn with
  | nil => exact (List.append_nil _).symm
  | append_singleton moves m ih =>
    rw [run_append_singleton, strides_append_singleton, sinceCleared_append_singleton, List.any_append, after_segments]
    cases hclears : m.clears with
    | true => simp [hclears]
    | false => cases hsegment : segment? ⟨t.run moves, m⟩ <;> simp [hclears, ih, hsegment]

theorem run_lead (hnew : t.segments = #[]) (hpen : ∀ s ∈ sinceCleared (t.strides moves), s.before.penDown) :
    Segment.Lead (if moves.any Move.clears then .origin else t.position)
      (t.run moves).segments.toList (t.run moves).position := by
  induction moves using List.reverseRecOn with
  | nil =>
    change Segment.Lead t.position t.segments.toList t.position
    rw [hnew]
    rfl
  | append_singleton moves m ih =>
    rw [strides_append_singleton, sinceCleared_append_singleton] at hpen
    rw [run_append_singleton, List.any_append]
    cases hclears : m.clears with
    | true =>
      have hlead := after_lead_of_clears ⟨t.run moves, m⟩ hclears
      simpa [hclears] using hlead
    | false =>
      simp only [hclears, Bool.false_eq_true, if_false, List.mem_append, List.mem_singleton] at hpen
      have hlead := after_lead ⟨t.run moves, m⟩ (hpen _ (.inr rfl)) hclears (ih fun s hs => hpen s (.inl hs))
      simpa [hclears] using hlead

/-- After every history of a new turtle, refused operations included, the segments are those of the
    moves made with the pen down since the screen was last cleared, in their order. If the pen has been
    down ever since, they lead from the origin, or from the turtle's first position, to where it is. -/
theorem drawing_is_path_walked (position : Point) (penDown : Bool) (penColor : Value) (moves : List Move) :
    let t : Turtle := { position, penDown, penColor }
    let drawing := sinceCleared (t.strides moves)
    (t.run moves).segments.toList = drawing.filterMap segment? ∧
      ((∀ s ∈ drawing, s.before.penDown) →
        Segment.Lead (if moves.any Move.clears then .origin else position)
          (t.run moves).segments.toList (t.run moves).position) := by
  intro t drawing
  refine ⟨?_, run_lead t moves rfl⟩
  rw [run_segments, ite_self]
  exact List.nil_append _

/-- A drawing of two lines, begun on a cleared screen; what came before it and a refused move are not
    in it. -/
theorem twoLines_lead :
    let moves : List Move := [.up, .setPos (.float 3.0) (.float 4.0), .down, .clearScreen, .forward (.text "far"),
      .forward (.float 10.0), .left (.float 90.0), .back (.float 5.0)]
    let t : Turtle := {}
    (∀ s ∈ sinceCleared (t.strides moves), s.before.penDown) ∧ (t.run moves).segments.size = 2 ∧
      Segment.Lead .origin (t.run moves).segments.toList (t.run moves).position := by
  intro moves t
  have hpen : ∀ s ∈ sinceCleared (t.strides moves), s.before.penDown := by decide
  exact ⟨hpen, rfl, (drawing_is_path_walked ⟨.real 0.0, .real 0.0⟩ true (.text "black") moves).2 hpen⟩

end Turtle

end SteppedLogo
