import SteppedLogo.Proofs.Command.Effect
import SteppedLogo.Proofs.Fault.Report
import SteppedLogo.Proofs.Value.Key

namespace SteppedLogo

namespace Value

/-- A list of the language with the given items. -/
def HasItems (v : Value) (items : List Value) : Prop := ∃ l, v = .list l ∧ l.items = items

/-- A number of the language: what can be converted to a double, but no truth value. -/
def IsNumber (v : Value) (x : Float) : Prop := (∀ b, v ≠ .bool b) ∧ toFloat v = .ok x

/-- A list of two numbers. -/
def IsPair (v : Value) (x y : Float) : Prop := ∃ a b, v.HasItems [a, b] ∧ a.IsNumber x ∧ b.IsNumber y

theorem HasItems.unique {v : Value} {items items' : List Value} (h : v.HasItems items) (h' : v.HasItems items') :
    items = items' := by
  obtain ⟨l, rfl, rfl⟩ := h
  obtain ⟨_, hl, rfl⟩ := h'
  cases hl
  rfl

theorem toNumber_eq_ok {v : Value} {x : Float} : toNumber v = .ok x ↔ v.IsNumber x := by
  unfold toNumber
  split
  case h_1 b => exact ⟨fun h => (by cases h), fun h => absurd rfl (h.1 b)⟩
  case h_2 hbool => exact ⟨fun h => ⟨hbool, h⟩, fun h => h.2⟩

/-- Conversions complain of values, of types and of sizes. -/
theorem kind_of_toNumber {v : Value} {c : Complaint} (h : toNumber v = .error c) : c.kind ≠ .validation := by
  unfold toNumber toFloat intToFloat at h
  split at h
  case h_1 =>
    cases h
    simp
  case h_2 =>
    split at h
    case h_2 | h_4 =>
      split at h <;> cases h
      simp [tooLarge]
    all_goals cases h
    simp

end Value

/-- A proper list of two items is a chain of two cells. -/
theorem LogoList.IsProper.eq_pair {l : LogoList} (hproper : l.IsProper) {a b : Value} (hitems : l.items = [a, b]) :
    ∃ i j, l = .cons i a (.cons j b .empty) := by
  obtain _ | _ | ⟨i, _, _ | _ | ⟨j, _, _ | _ | _⟩⟩ := l <;> simp_all [items, IsProper]

section Pair

variable {v a b : Value} {x y : Float} {c : Complaint}

theorem toPair_of_no_list (h : ∀ items, ¬ v.HasItems items) : toPair v = .error notAList := by
  cases v with
  | list l => exact (h _ ⟨l, rfl, rfl⟩).elim
  | none | bool | int | float | text | sequence | object | procedure => rfl

theorem toPair_of_length (hproper : ∀ l, v = .list l → l.IsProper) {items : List Value} (h : v.HasItems items)
    (hlength : items.length ≠ 2) : toPair v = .error notAPair := by
  obtain ⟨l, rfl, rfl⟩ := h
  have hproper := hproper l rfl
  unfold toPair
  split
  -- a chain of two cells has two items, and a proper one ends in the empty list
  case h_1 heq =>
    cases heq
    exact (hlength rfl).elim
  case h_2 heq =>
    cases heq
    exact hproper.elim
  case h_3 => rfl
  case h_4 hne => exact (hne l rfl).elim

theorem toPair_of_items (hproper : ∀ l, v = .list l → l.IsProper) (h : v.HasItems [a, b]) :
    toPair v = do return (← toNumber a, ← toNumber b) := by
  obtain ⟨l, rfl, hitems⟩ := h
  obtain ⟨i, j, rfl⟩ := (hproper l rfl).eq_pair hitems
  rfl

theorem toPair_of_first (hproper : ∀ l, v = .list l → l.IsProper) (h : v.HasItems [a, b])
    (ha : toNumber a = .error c) : toPair v = .error c := by
  rw [toPair_of_items hproper h, ha]
  rfl

theorem toPair_of_second (hproper : ∀ l, v = .list l → l.IsProper) (h : v.HasItems [a, b])
    (ha : a.IsNumber x) (hb : toNumber b = .error c) : toPair v = .error c := by
  rw [toPair_of_items hproper h, Value.toNumber_eq_ok.2 ha, hb]
  rfl

theorem toPair_of_numbers (hproper : ∀ l, v = .list l → l.IsProper) (h : v.IsPair x y) : toPair v = .ok (x, y) := by
  obtain ⟨a, b, hitems, ha, hb⟩ := h
  rw [toPair_of_items hproper hitems, Value.toNumber_eq_ok.2 ha, Value.toNumber_eq_ok.2 hb]
  rfl

/-- A value is a list of two numbers, or it is complained of; it is invalid exactly if it is no list of two. -/
theorem toPair_cases (hproper : ∀ l, v = .list l → l.IsProper) :
    (∃ x y, v.IsPair x y ∧ toPair v = .ok (x, y)) ∨
      ∃ c, toPair v = .error c ∧ (c.kind = .validation ↔ ∀ a b, ¬ v.HasItems [a, b]) := by
  by_cases hlist : ∃ items, v.HasItems items
  · obtain ⟨items, hitems⟩ := hlist
    by_cases hlength : items.length = 2
    · obtain ⟨a, b, rfl⟩ := List.length_eq_two.1 hlength
      have hno {c : Complaint} (hc : c.kind ≠ .validation) : c.kind = .validation ↔ ∀ a b, ¬ v.HasItems [a, b] :=
        ⟨fun h => absurd h hc, fun h => absurd hitems (h a b)⟩
      cases ha : toNumber a with
      | error c => exact .inr ⟨c, toPair_of_first hproper hitems ha, hno (Value.kind_of_toNumber ha)⟩
      | ok x =>
        have ha := Value.toNumber_eq_ok.1 ha
        cases hb : toNumber b with
        | error c => exact .inr ⟨c, toPair_of_second hproper hitems ha hb, hno (Value.kind_of_toNumber hb)⟩
        | ok y =>
          have hpair : v.IsPair x y := ⟨a, b, hitems, ha, Value.toNumber_eq_ok.1 hb⟩
          exact .inl ⟨x, y, hpair, toPair_of_numbers hproper hpair⟩
    · refine .inr ⟨notAPair, toPair_of_length hproper hitems hlength, iff_of_true rfl fun a b h => ?_⟩
      exact hlength (congrArg List.length (hitems.unique h))
  · exact .inr ⟨notAList, toPair_of_no_list (not_exists.1 hlist), iff_of_true rfl fun a b h => hlist ⟨_, h⟩⟩

end Pair

namespace World

/-- The turtle of `w` has come to a place in `u`, and the words report that place. -/
structure Places (w : World) (x y : Float) (u : World) : Prop where
  turtle : u.turtle = { w.turtle with
    position := ⟨.real x, .real y⟩
    segments :=
      if w.turtle.penDown then w.turtle.segments.push ⟨w.turtle.position, ⟨.real x, .real y⟩, w.turtle.penColor⟩
      else w.turtle.segments }
  pos : ∃ l : LogoList, (u.callPrimitive .pos []).1 = .ok (.list l) ∧ l.IsProper ∧ l.items = [.float x, .float y]
  xcor : (u.callPrimitive .xcor []).1 = .ok (.float x)
  ycor : (u.callPrimitive .ycor []).1 = .ok (.float y)

/-- What `setpos` makes of an input: it takes a list of two numbers, told to nine places; what is no
    list of two is invalid, whatever it holds; of two items the first that is no number is complained
    of; and a refusal leaves the turtle where it is. -/
structure SetsPosition (w : World) (v : Value) : Prop where
  returns : (∃ result, (w.callPrimitive .setpos [v]).1 = .ok result) ↔ ∃ x y, v.IsPair x y
  invalid : (∃ fault, (w.callPrimitive .setpos [v]).1 = .error fault ∧
    (w.callPrimitive .setpos [v]).2.faults.kindOf fault = .validation) ↔ ∀ a b, ¬ v.HasItems [a, b]
  no_list : (∀ items, ¬ v.HasItems items) → w.callPrimitive .setpos [v] = w.complain notAList
  length : ∀ items, v.HasItems items → items.length ≠ 2 → w.callPrimitive .setpos [v] = w.complain notAPair
  first : ∀ a b c, v.HasItems [a, b] → toNumber a = .error c → w.callPrimitive .setpos [v] = w.complain c
  second : ∀ a b x c, v.HasItems [a, b] → a.IsNumber x → toNumber b = .error c →
    w.callPrimitive .setpos [v] = w.complain c
  refused : ∀ fault, (w.callPrimitive .setpos [v]).1 = .error fault →
    (w.callPrimitive .setpos [v]).2.turtle = w.turtle
  placed : ∀ x y, v.IsPair x y →
    w.Places (Decimal.roundPlaces 9 x + 0.0) (Decimal.roundPlaces 9 y + 0.0) (w.callPrimitive .setpos [v]).2

variable {w : World} {v : Value} {c : Complaint} {x y : Float}

theorem callPrimitive_setpos_of_error (h : toPair v = .error c) : w.callPrimitive .setpos [v] = w.complain c := by
  rw [callPrimitive_eq, Primitive.call, h]
  rfl

theorem callPrimitive_setpos_of_ok (h : toPair v = .ok (x, y)) :
    w.callPrimitive .setpos [v] = (.ok .none, w.carryOut { turtle := w.turtle.moveTo x y }) := by
  rw [callPrimitive_eq, Primitive.call, h]
  rfl

theorem kindOf_complain {α : Type} {fault : FaultId} (h : (@complain α w c).1 = .error fault) :
    (@complain α w c).2.faults.kindOf fault = c.kind := by
  cases h
  exact congrArg (fun f => (f.map Fault.kind).getD .general) (w.faults.get?_add (.ofComplaint c))

theorem places_moveTo (w : World) (x y : Float) :
    w.Places (Turtle.snap x) (Turtle.snap y) (w.carryOut { turtle := w.turtle.moveTo x y }) where
  turtle := rfl
  pos := ⟨_, by rw [callPrimitive_eq]; rfl, LogoList.isProper_ofList _ _, LogoList.items_ofList _ _⟩
  xcor := by rw [callPrimitive_eq]; rfl
  ycor := by rw [callPrimitive_eq]; rfl

/-- `setpos` with any value, in any world, provided a list ends in the empty list: it takes a list of two numbers, or of
what is converted to numbers, moves there and draws if the pen is down; it complains of anything else, of the length
before the items and of the first item first, and leaves the turtle. -/
theorem setpos_takes_pairs (w : World) (v : Value) (hproper : ∀ l, v = .list l → l.IsProper) :
    w.SetsPosition v where
  returns := by
    refine ⟨fun ⟨result, hresult⟩ => ?_, fun ⟨x, y, hpair⟩ => ?_⟩
    · obtain ⟨x, y, hpair, -⟩ | ⟨c, hc, -⟩ := toPair_cases hproper
      · exact ⟨x, y, hpair⟩
      · rw [callPrimitive_setpos_of_error hc] at hresult
        cases hresult
    · exact ⟨.none, by rw [callPrimitive_setpos_of_ok (toPair_of_numbers hproper hpair)]⟩
  invalid := by
    obtain ⟨x, y, ⟨a, b, hitems, -, -⟩, hok⟩ | ⟨c, hc, hkind⟩ := toPair_cases hproper
    · rw [callPrimitive_setpos_of_ok hok]
      exact ⟨fun ⟨_, h, _⟩ => (by cases h), fun h => (h a b hitems).elim⟩
    · rw [callPrimitive_setpos_of_error hc, ← hkind]
      exact ⟨fun ⟨_, h, hvalidation⟩ => kindOf_complain h ▸ hvalidation,
        fun hvalidation => ⟨_, rfl, (kindOf_complain rfl).trans hvalidation⟩⟩
  no_list h := callPrimitive_setpos_of_error (toPair_of_no_list h)
  length _ h hlength := callPrimitive_setpos_of_error (toPair_of_length hproper h hlength)
  first _ _ _ h ha := callPrimitive_setpos_of_error (toPair_of_first hproper h ha)
  second _ _ _ _ h ha hb := callPrimitive_setpos_of_error (toPair_of_second hproper h ha hb)
  refused fault h := by
    obtain ⟨x, y, -, hok⟩ | ⟨c, hc, -⟩ := toPair_cases hproper
    · rw [callPrimitive_setpos_of_ok hok] at h
      cases h
    · rw [callPrimitive_setpos_of_error hc]
      rfl
  placed x y hpair := by
    rw [callPrimitive_setpos_of_ok (toPair_of_numbers hproper hpair)]
    exact places_moveTo w x y

/-- A number and a word that spells one are taken, and the way there is drawn. -/
theorem setpos_three_four :
    (∀ l, Value.list (.ofList 0 [.int 3, .text "4"]) = .list l → l.IsProper) ∧
      ({} : World).SetsPosition (.list (.ofList 0 [.int 3, .text "4"])) ∧
      (({} : World).callPrimitive .setpos [.list (.ofList 0 [.int 3, .text "4"])]).2.turtle.segments.size = 1 := by
  have hproper : ∀ l, Value.list (.ofList 0 [.int 3, .text "4"]) = .list l → l.IsProper := by
    rintro l ⟨⟩
    exact LogoList.isProper_ofList 0 _
  exact ⟨hproper, setpos_takes_pairs _ _ hproper, by decide +kernel⟩

end World

end SteppedLogo
