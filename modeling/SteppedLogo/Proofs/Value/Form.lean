import Mathlib.Data.Nat.ModEq
import SteppedLogo.Proofs.Decimal.Number
import SteppedLogo.Value.Access
import SteppedLogo.Value.Hash

namespace SteppedLogo

open Decimal

namespace Decimal.Binary

/-- A whole number, as a double with enough digits would hold it. -/
def whole (n : ℤ) : Binary := finite (n < 0) n.natAbs 0

/-- A whole number stands for itself. -/
theorem number_whole (n : ℤ) : (whole n).number? = some (.finite n) := by
  have hn : ((if n < 0 then -1 else 1 : ℤ) * n.natAbs : ℤ) = n := by
    split <;> omega
  have hcast : ((if decide (n < 0) = true then -1 else 1 : ℚ) * n.natAbs : ℚ) = n := by
    rw [← @Int.cast_inj ℚ] at hn
    rw [← hn]
    push_cast
    simp
  rw [whole, number?, zpow_zero, mul_one, hcast]

end Decimal.Binary

namespace HashKey

/-- The number with the given sign and size. -/
def signed (negative : Bool) (size : ℕ) : ℤ := if negative then -size else size

/-- The key of a remainder; `-1` is not used as a key. -/
def ofRemainder (r : ℤ) : HashKey := number (if r = -1 then -2 else r)

/-- The hash of a whole number is made from its size's remainder, with its sign. -/
theorem ofInt_signed (negative : Bool) (size : ℕ) :
    ofInt (signed negative size) = ofRemainder (signed negative (size % modulus)) := by
  have habs : (signed negative size).natAbs = size := by cases negative <;> simp [signed]
  have hreduced : (if signed negative size < 0 then -((size % modulus : ℕ) : ℤ) else (size % modulus : ℕ)) =
      signed negative (size % modulus) := by
    cases negative with
    | false => exact if_neg (by simp [signed])
    | true =>
      cases size with
      | zero => rfl
      | succ n => exact if_pos (by simp only [signed, if_true]; omega)
  unfold ofInt
  rw [habs]
  dsimp only
  rw [hreduced]
  rfl

/-- Powers of two repeat modulo the prime. -/
theorem twoPow_modEq (n : ℕ) : twoPow n ≡ twoPow (n % 61) [MOD modulus] := by
  have hround : twoPow 61 ≡ 1 [MOD modulus] := by decide
  calc twoPow n = twoPow 61 ^ (n / 61) * twoPow (n % 61) := by
        change 2 ^ n = (2 ^ 61) ^ (n / 61) * 2 ^ (n % 61)
        rw [← pow_mul, ← pow_add, Nat.div_add_mod]
    _ ≡ 1 ^ (n / 61) * twoPow (n % 61) [MOD modulus] := (hround.pow _).mul_right _
    _ = twoPow (n % 61) := by rw [one_pow, one_mul]

/-- What is left of a mantissa and an exponent modulo the prime. -/
def remainder (mantissa : ℕ) (exponent : ℤ) : ℕ := mantissa * twoPow (exponent % 61).toNat % modulus

section

variable {m n : ℕ} {e f : ℤ}

/-- Twos may be moved between the significand and the exponent without a change of the remainder. -/
theorem remainder_shift (n k : ℕ) (e : ℤ) : remainder (n * 2 ^ k) e = remainder n (e + k) := by
  have hexponent : ((e + k) % 61).toNat = (k + (e % 61).toNat) % 61 := by omega
  have hpower : 2 ^ k * twoPow (e % 61).toNat = twoPow (k + (e % 61).toNat) := (pow_add 2 _ _).symm
  rw [remainder, remainder, hexponent, mul_assoc, hpower]
  exact (twoPow_modEq _).mul_left n

/-- One size leaves one remainder. -/
theorem remainder_eq_of_size (h : (m * 2 ^ e : ℚ) = n * 2 ^ f) : remainder m e = remainder n f := by
  rcases le_total e f with hle | hle
  · obtain ⟨k, rfl, rfl⟩ := Binary.exists_shift hle h
    exact remainder_shift n k e
  · obtain ⟨k, rfl, rfl⟩ := Binary.exists_shift hle h.symm
    exact (remainder_shift m k f).symm

end

/-- The key of a number; not-a-number has none that is its own. -/
def ofBinary? : Binary → Option HashKey
  | .nan => none
  | .infinite negative => some (number (if negative then -314159 else 314159))
  | .finite negative mantissa exponent => some (ofRemainder (signed negative (remainder mantissa exponent)))

/-- A double that is whole has the hash of the whole number. -/
theorem ofBinary_whole (n : ℤ) : ofBinary? (.whole n) = some (ofInt n) := by
  have hn : signed (n < 0) n.natAbs = n := by
    unfold signed
    simp only [decide_eq_true_eq]
    split <;> omega
  have hremainder : remainder n.natAbs 0 = n.natAbs % modulus := congrArg (· % modulus) (mul_one n.natAbs)
  rw [Binary.whole, ofBinary?, hremainder, ← ofInt_signed, hn]

/-- The hash of a double is that of its significand and exponent. -/
theorem ofFloat_of_binary {x : Float} {id : Identity} {key : HashKey} (h : ofBinary? (.ofFloat x) = some key) :
    ofFloat x id = key := by
  unfold ofFloat
  cases hx : Binary.ofFloat x <;> rw [hx] at h <;> cases h
  · rfl
  · exact (ofInt_signed _ _).trans (by rw [Nat.mod_mod]; rfl)

/-- Equal numbers have one key. -/
theorem ofBinary_eq_of_number {a b : Binary} (h : a.number? = b.number?) : ofBinary? a = ofBinary? b := by
  cases a <;> cases b
  case infinite.infinite =>
    cases h
    rfl
  case finite.finite s m e t n f =>
    obtain ⟨rfl, rfl⟩ | ⟨rfl, hsize⟩ := Binary.sign_and_size_of_number h
    · have hzero (negative : Bool) (exponent : ℤ) : signed negative (remainder 0 exponent) = 0 := by
        cases negative <;> simp [signed, remainder]
      rw [ofBinary?, ofBinary?, hzero, hzero]
    · rw [ofBinary?, ofBinary?, remainder_eq_of_size hsize]
  case nan.nan => rfl
  all_goals cases h

end HashKey

end SteppedLogo

namespace SteppedLogo

open Decimal

mutual

/-- A plain list is made of cells and ends in the empty list, and so do the lists in it; no host's list is among its
    items. -/
def Value.IsPlain : Value → Prop
  | .list l => l.IsPlain
  | .sequence .. => False
  | _ => True

def LogoList.IsPlain : LogoList → Prop
  | .empty => True
  | .cons _ head tail => head.IsPlain ∧ tail.IsPlain
  | .bare _ => False

end

mutual

/-- Not-a-number is the value or occurs in it, at any depth. -/
def Value.HasNaN : Value → Prop
  | .float x _ => x.isNaN = true
  | .list l => l.HasNaN
  | _ => False

def LogoList.HasNaN : LogoList → Prop
  | .cons _ head tail => head.HasNaN ∨ tail.HasNaN
  | .empty | .bare _ => False

end

mutual

/-- Induction over the plain values, with one case for the atoms and one for the lists. -/
theorem Value.IsPlain.induction {P : Value → Prop} {Q : LogoList → Prop}
    (atom : ∀ v, (∀ l, v ≠ .list l) → v.IsPlain → P v) (list : ∀ l, Q l → P (.list l)) (empty : Q .empty)
    (cons : ∀ id head tail, P head → Q tail → Q (.cons id head tail)) : (v : Value) → v.IsPlain → P v
  | .list l, h => list l (LogoList.IsPlain.induction atom list empty cons l h)
  | .none, h | .bool _, h | .int .., h | .float .., h | .text .., h | .object .., h | .procedure .., h => atom _ nofun h
  | .sequence .., h => h.elim

/-- Induction over the plain lists, with one case for the empty list and one for a cell. -/
theorem LogoList.IsPlain.induction {P : Value → Prop} {Q : LogoList → Prop}
    (atom : ∀ v, (∀ l, v ≠ .list l) → v.IsPlain → P v) (list : ∀ l, Q l → P (.list l)) (empty : Q .empty)
    (cons : ∀ id head tail, P head → Q tail → Q (.cons id head tail)) : (l : LogoList) → l.IsPlain → Q l
  | .empty, _ => empty
  | .cons id head tail, h =>
    cons id head tail (Value.IsPlain.induction atom list empty cons head h.1)
      (LogoList.IsPlain.induction atom list empty cons tail h.2)
  | .bare _, h => h.elim

end

/-- What holds of everything but lists, and of a list by its items, holds of all plain values. -/
theorem plain_induction {P : Value → Prop} {Q : LogoList → Prop} (atom : ∀ v, (∀ l, v ≠ .list l) → v.IsPlain → P v)
    (list : ∀ l, Q l → P (.list l)) (empty : Q .empty)
    (cons : ∀ id head tail, P head → Q tail → Q (.cons id head tail)) :
    (∀ v : Value, v.IsPlain → P v) ∧ ∀ l : LogoList, l.IsPlain → Q l :=
  ⟨Value.IsPlain.induction atom list empty cons, LogoList.IsPlain.induction atom list empty cons⟩

/-- What is left of a value where identities and the kinds of numbers do not count. -/
inductive Form
  | nothing
  | number (n : Number)
  | text (s : String)
  | object (id : Identity)
  | procedure (id : Identity)
  | list (items : List Form)

mutual

/-- Not-a-number has no form, and neither has what it occurs in. -/
def Value.form? : Value → Option Form
  | .none => some .nothing
  | .bool b => some (.number (.finite (boolInt b)))
  | .int n _ => some (.number (.finite n))
  | .float x _ => (Binary.ofFloat x).number?.map .number
  | .text s _ => some (.text s)
  | .list l => l.forms?.map .list
  | .sequence .. => none
  | .object id _ => some (.object id)
  | .procedure id _ => some (.procedure id)

def LogoList.forms? : LogoList → Option (List Form)
  | .empty => some []
  | .cons _ head tail => head.form?.bind fun f => tail.forms?.map fun fs => f :: fs
  | .bare _ => none

end

namespace Value

/-- The form of a list is that of its items. -/
theorem form_list {l : LogoList} {f : Form} : (list l).form? = some f ↔ ∃ fs, l.forms? = some fs ∧ .list fs = f := by
  simp [form?]

end Value

namespace LogoList

variable {id : Identity} {head : Value} {tail : LogoList}

@[simp]
theorem forms_empty : empty.forms? = some [] := rfl

/-- The forms of a cell are that of its head and those of its tail, provided both have one. -/
theorem forms_cons {fs : List Form} : (cons id head tail).forms? = some fs ↔
    ∃ f rest, head.form? = some f ∧ tail.forms? = some rest ∧ f :: rest = fs := by
  simp [forms?, Option.bind_eq_some_iff]

theorem forms_cons_ne_nil : (cons id head tail).forms? ≠ some [] := fun h => by
  simpa using forms_cons.1 h

end LogoList

theorem boolInt_inj {a b : Bool} : boolInt a = boolInt b ↔ a = b := by cases a <;> cases b <;> decide

/-- A plain atom equals a value exactly if both have one form. -/
theorem Value.equal_iff_form_of_atom {a b : Value} (hatom : ∀ l, a ≠ list l) (ha : a.IsPlain) :
    a.equal b = true ↔ ∃ f, a.form? = some f ∧ b.form? = some f := by
  cases a <;> cases b <;>
    simp [equal, form?, intEqFloat, Binary.isInt_iff_number, Binary.beq_iff_number]
  case list.list l _ => exact absurd rfl (hatom l)
  case sequence.sequence => exact ha.elim
  case bool.bool => exact boolInt_inj.symm.trans eq_comm
  all_goals exact eq_comm

/-- Plain values, and plain lists, are equal exactly if they have one form. -/
theorem equal_iff_form_and_forms :
    (∀ a : Value, a.IsPlain → ∀ b : Value, b.IsPlain →
      (a.equal b = true ↔ ∃ f, a.form? = some f ∧ b.form? = some f)) ∧
    (∀ a : LogoList, a.IsPlain → ∀ b : LogoList, b.IsPlain →
      (a.equal b = true ↔ ∃ fs, a.forms? = some fs ∧ b.forms? = some fs)) := by
  refine plain_induction (fun a hatom ha b _ => Value.equal_iff_form_of_atom hatom ha) ?list ?empty ?cons
  case list =>
    intro l ih b hb
    cases b with
    | list l' =>
      rw [Value.equal, ih l' hb]
      constructor
      · rintro ⟨fs, h, h'⟩
        exact ⟨.list fs, Value.form_list.2 ⟨fs, h, rfl⟩, Value.form_list.2 ⟨fs, h', rfl⟩⟩
      · rintro ⟨f, h, h'⟩
        obtain ⟨fs, hforms, rfl⟩ := Value.form_list.1 h
        obtain ⟨_, hforms', heq⟩ := Value.form_list.1 h'
        cases heq
        exact ⟨fs, hforms, hforms'⟩
    | _ => simp [Value.equal, Value.form?]
  case empty =>
    intro b hb
    cases b with
    | empty => simp [LogoList.equal]
    | bare => exact hb.elim
    | cons id head tail => simp [LogoList.equal, LogoList.forms_cons_ne_nil]
  case cons =>
    intro id head tail ihhead ihtail b hb
    cases b with
    | empty => simp [LogoList.equal, LogoList.forms_cons_ne_nil]
    | bare => exact hb.elim
    | cons id' head' tail' =>
      rw [LogoList.equal, Bool.and_eq_true, ihhead head' hb.1, ihtail tail' hb.2]
      constructor
      · rintro ⟨⟨f, hf, hf'⟩, fs, hfs, hfs'⟩
        exact ⟨f :: fs, LogoList.forms_cons.2 ⟨f, fs, hf, hfs, rfl⟩, LogoList.forms_cons.2 ⟨f, fs, hf', hfs', rfl⟩⟩
      · rintro ⟨_, h, h'⟩
        obtain ⟨f, fs, hf, hfs, rfl⟩ := LogoList.forms_cons.1 h
        obtain ⟨f', fs', hf', hfs', heq⟩ := LogoList.forms_cons.1 h'
        cases heq
        exact ⟨⟨f, hf, hf'⟩, fs, hfs, hfs'⟩

/-- What has a form is what not-a-number does not occur in. -/
theorem form_and_forms_isSome :
    (∀ v : Value, v.IsPlain → (v.form?.isSome ↔ ¬ v.HasNaN)) ∧
    (∀ l : LogoList, l.IsPlain → (l.forms?.isSome ↔ ¬ l.HasNaN)) := by
  refine plain_induction ?atom ?list ?empty ?cons
  case atom =>
    intro v hatom hv
    cases v with
    | list l => exact absurd rfl (hatom l)
    | sequence => exact hv.elim
    | float x id =>
      rw [Value.form?, Option.isSome_map, Value.HasNaN, Binary.isNaN_iff_number, Option.isSome_iff_ne_none]
    | _ => simp [Value.form?, Value.HasNaN]
  case list =>
    intro l ih
    rw [Value.form?, Option.isSome_map, ih, Value.HasNaN]
  case empty => simp [LogoList.forms?, LogoList.HasNaN]
  case cons =>
    intro id head tail ihhead ihtail
    rw [LogoList.HasNaN, not_or, ← ihhead, ← ihtail, LogoList.forms?]
    cases head.form? <;> simp

namespace LogoList

variable {a b c : LogoList}

/-- Plain lists are equal exactly if their items have the same forms. -/
theorem equal_iff_forms (ha : a.IsPlain) (hb : b.IsPlain) :
    a.equal b = true ↔ ∃ fs, a.forms? = some fs ∧ b.forms? = some fs := equal_iff_form_and_forms.2 a ha b hb

/-- Equality of plain values does not depend on the order in which they are compared. -/
theorem equal_comm (ha : a.IsPlain) (hb : b.IsPlain) : a.equal b = b.equal a := by
  rw [Bool.eq_iff_iff, equal_iff_forms ha hb, equal_iff_forms hb ha]
  exact exists_congr fun _ => and_comm

/-- Equality of plain values is transitive. -/
theorem equal_trans (ha : a.IsPlain) (hb : b.IsPlain) (hc : c.IsPlain) (hab : a.equal b = true) (hbc : b.equal c = true) :
    a.equal c = true := by
  obtain ⟨fs, hfa, hfb⟩ := (equal_iff_forms ha hb).1 hab
  obtain ⟨gs, hgb, hgc⟩ := (equal_iff_forms hb hc).1 hbc
  cases hfb.symm.trans hgb
  exact (equal_iff_forms ha hc).2 ⟨fs, hfa, hgc⟩

/-- A plain value equals itself exactly if there is no NaN within it. -/
theorem equal_self_iff (ha : a.IsPlain) : a.equal a = true ↔ ¬ a.HasNaN := by
  rw [equal_iff_forms ha ha, ← form_and_forms_isSome.2 a ha, Option.isSome_iff_exists]
  simp

end LogoList

/-- All binary forms of one number have one hash. -/
theorem HashKey.exists_of_number (n : Number) : ∃ key, ∀ b : Binary, b.number? = some n → HashKey.ofBinary? b =
    some key := by
  by_cases h : ∃ b : Binary, b.number? = some n
  · obtain ⟨b, hb⟩ := h
    have hkey : (HashKey.ofBinary? b).isSome := by
      cases b with
      | nan => cases hb
      | infinite | finite => rfl
    obtain ⟨key, hkey⟩ := Option.isSome_iff_exists.1 hkey
    exact ⟨key, fun b' hb' => (HashKey.ofBinary_eq_of_number (hb'.trans hb.symm)).trans hkey⟩
  · exact ⟨.nothing, fun b hb => absurd ⟨b, hb⟩ h⟩

/-- A value that is a number has the key of the number. -/
theorem Value.exists_binary_of_number {v : Value} {n : Number} (h : v.form? = some (.number n)) :
    ∃ b : Binary, b.number? = some n ∧ ∀ key, HashKey.ofBinary? b = some key → v.hashKey? = some key := by
  cases v with
  | bool b =>
    cases h
    exact ⟨.whole (boolInt b), Binary.number_whole _, fun key hkey => (HashKey.ofBinary_whole _).symm.trans hkey⟩
  | int n id =>
    cases h
    exact ⟨.whole n, Binary.number_whole _, fun key hkey => (HashKey.ofBinary_whole _).symm.trans hkey⟩
  | float x id =>
    obtain ⟨n, hn, heq⟩ := Option.map_eq_some_iff.1 h
    cases heq
    exact ⟨.ofFloat x, hn, fun key hkey => congrArg some (HashKey.ofFloat_of_binary hkey)⟩
  | _ => simp [form?] at h

mutual

/-- The hash key of a value is read off its form. -/
theorem Value.hashKey_of_form : (f : Form) → ∃ key, ∀ v : Value, v.form? = some f → v.hashKey? = some key
  | .nothing => ⟨.nothing, fun v hv => by cases v <;> simp_all [Value.form?, Value.hashKey?]⟩
  | .number n => by
    obtain ⟨key, hkey⟩ := HashKey.exists_of_number n
    refine ⟨key, fun v hv => ?_⟩
    obtain ⟨b, hb, hv⟩ := Value.exists_binary_of_number hv
    exact hv key (hkey b hb)
  | .text s => ⟨.ofText s, fun v hv => by cases v <;> simp_all [Value.form?, Value.hashKey?]⟩
  | .object id => ⟨.reference id, fun v hv => by cases v <;> simp_all [Value.form?, Value.hashKey?]⟩
  | .procedure id => ⟨.reference id, fun v hv => by cases v <;> simp_all [Value.form?, Value.hashKey?]⟩
  | .list fs => by
    obtain ⟨keys, hkeys⟩ := LogoList.hashKeys_of_forms fs
    refine ⟨.list keys, fun v hv => ?_⟩
    cases v with
    | list l =>
      obtain ⟨_, hl, heq⟩ := Value.form_list.1 hv
      cases heq
      exact congrArg (Option.map HashKey.list) (hkeys l hl)
    | _ => simp [Value.form?] at hv

/-- All lists whose items have the same forms have one hash. -/
theorem LogoList.hashKeys_of_forms : (fs : List Form) → ∃ keys, ∀ l : LogoList, l.forms? = some fs → l.hashKeys? = some keys
  | [] => by
    refine ⟨[], fun l hl => ?_⟩
    cases l with
    | cons id head tail => simpa using LogoList.forms_cons.1 hl
    | empty | bare => rfl
  | f :: fs => by
    obtain ⟨key, hkey⟩ := Value.hashKey_of_form f
    obtain ⟨keys, hkeys⟩ := LogoList.hashKeys_of_forms fs
    refine ⟨key :: keys, fun l hl => ?_⟩
    cases l with
    | cons id head tail =>
      obtain ⟨_, _, hf, hfs, heq⟩ := LogoList.forms_cons.1 hl
      cases heq
      rw [LogoList.hashKeys?, hkey head hf, hkeys tail hfs]
      rfl
    | empty | bare => cases hl

end

/-- Equal plain lists have one hash. -/
theorem LogoList.hashKey_eq_of_equal {a b : LogoList} (ha : a.IsPlain) (hb : b.IsPlain) (h : a.equal b = true) :
    ∃ key, (Value.list a).hashKey? = some key ∧ (Value.list b).hashKey? = some key := by
  obtain ⟨fs, hfa, hfb⟩ := (LogoList.equal_iff_forms ha hb).1 h
  obtain ⟨key, hkey⟩ := Value.hashKey_of_form (.list fs)
  exact ⟨key, hkey _ (Value.form_list.2 ⟨fs, hfa, rfl⟩), hkey _ (Value.form_list.2 ⟨fs, hfb, rfl⟩)⟩

end SteppedLogo
