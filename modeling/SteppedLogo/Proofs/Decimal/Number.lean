import Mathlib
import SteppedLogo.Value.Equality

namespace SteppedLogo

/-- What a value may be as a number. -/
inductive Number
  | infinite (negative : Bool)
  | finite (q : ℚ)

namespace Decimal.Binary

open Float.Model

/-- The number of a double; not-a-number is none. -/
def number? : Binary → Option Number
  | nan => none
  | infinite negative => some (.infinite negative)
  | finite negative mantissa exponent => some (.finite ((if negative then -1 else 1) * (mantissa * 2 ^ exponent)))

theorem twoPow_cast (n : ℕ) : (twoPow n : ℚ) = 2 ^ n := by
  change ((2 ^ n : ℕ) : ℚ) = _
  norm_cast

/-- A double is a given whole number exactly if that is the number it stands for. -/
theorem isInt_iff_number {n : ℤ} {b : Binary} : b.isInt n = true ↔ b.number? = some (.finite n) := by
  cases b with
  | nan => simp [isInt, number?]
  | infinite negative => simp [isInt, number?]
  | finite negative mantissa exponent =>
    generalize hsign : (if negative = true then -1 else 1 : ℤ) = sign
    have hcast : (if negative = true then -1 else 1 : ℚ) = sign := by
      rw [← hsign]
      split <;> simp
    simp only [isInt, number?, hsign, hcast, Option.some.injEq, Number.finite.injEq]
    split
    · next hexponent =>
      obtain ⟨k, rfl⟩ := Int.eq_ofNat_of_zero_le hexponent
      rw [beq_iff_eq, ← @Int.cast_inj ℚ]
      push_cast [twoPow_cast]
      rw [mul_assoc]
      rfl
    · next hexponent =>
      obtain ⟨k, hk⟩ := Int.eq_ofNat_of_zero_le (show 0 ≤ -exponent by omega)
      obtain rfl : exponent = -k := by omega
      rw [beq_iff_eq, ← @Int.cast_inj ℚ]
      push_cast [twoPow_cast]
      rw [neg_neg, Int.toNat_natCast, zpow_neg, zpow_natCast, ← mul_assoc, ← div_eq_mul_inv, div_eq_iff (by positivity)]

section

variable {s t : Bool} {m n : ℕ} {e f : ℤ}

/-- Of two exponents of a number, the greater one goes with the smaller mantissa. -/
theorem exists_shift (hle : e ≤ f) (h : (m * 2 ^ e : ℚ) = n * 2 ^ f) : ∃ k : ℕ, f = e + k ∧ m = n * 2 ^ k := by
  obtain ⟨k, rfl⟩ := Int.le.dest hle
  have htwo : (2 : ℚ) ^ e ≠ 0 := zpow_ne_zero _ two_ne_zero
  rw [zpow_add₀ two_ne_zero, mul_comm _ ((2 : ℚ) ^ (k : ℤ)), ← mul_assoc, zpow_natCast, mul_left_inj' htwo] at h
  exact ⟨k, rfl, by exact_mod_cast h⟩

/-- A significand with an exponent is zero exactly if the significand is. -/
theorem size_eq_zero : (m * 2 ^ e : ℚ) = 0 ↔ m = 0 := by
  rw [mul_eq_zero, or_iff_left (zpow_ne_zero _ two_ne_zero), Nat.cast_eq_zero]

/-- Numbers on both sides of zero agree only there. -/
theorem eq_zero_of_neg_eq (h : -(m * 2 ^ e : ℚ) = n * 2 ^ f) : m = 0 ∧ n = 0 := by
  have hm : (0 : ℚ) ≤ m * 2 ^ e := by positivity
  have hn : (0 : ℚ) ≤ n * 2 ^ f := by positivity
  have hmzero : (m * 2 ^ e : ℚ) = 0 := by linarith
  have hnzero : (n * 2 ^ f : ℚ) = 0 := by linarith
  exact ⟨size_eq_zero.1 hmzero, size_eq_zero.1 hnzero⟩

/-- A number but zero has one sign and one size. -/
theorem sign_and_size_of_number (h : (finite s m e).number? = (finite t n f).number?) :
    (m = 0 ∧ n = 0) ∨ (s = t ∧ (m * 2 ^ e : ℚ) = n * 2 ^ f) := by
  simp only [number?, Option.some.injEq, Number.finite.injEq] at h
  cases s <;> cases t <;> simp only [if_true, if_false, Bool.false_eq_true, one_mul, neg_one_mul, neg_inj] at h
  · exact .inr ⟨rfl, h⟩
  · exact .inl (eq_zero_of_neg_eq h.symm).symm
  · exact .inl (eq_zero_of_neg_eq h)
  · exact .inr ⟨rfl, h⟩

/-- Mantissa and exponent as a double holds them: the mantissa has full width, unless the exponent is the least. -/
structure Canonical (mantissa : ℕ) (exponent : ℤ) : Prop where
  least : leastExponent ≤ exponent
  small : mantissa < 2 ^ 53
  full : 2 ^ 52 ≤ mantissa ∨ exponent = leastExponent

/-- A finite double is told by a canonical significand and exponent. -/
theorem canonical_ofFloat {x : Float} (h : ofFloat x = finite s m e) : Canonical m e := by
  have hfraction : x.toBits.toNat % twoPow fractionBits < 2 ^ 52 := Nat.mod_lt _ (by decide)
  have hwidth : twoPow fractionBits = 2 ^ 52 := by decide
  unfold ofFloat ofBits at h
  dsimp only at h
  split at h
  · split at h <;> cases h
  · split at h
    · cases h
      exact ⟨le_rfl, by omega, .inr rfl⟩
    · cases h
      exact ⟨by unfold leastExponent; omega, by omega, .inl (by omega)⟩

namespace Canonical

/-- Two canonical pairs of one number, the first with the lower exponent, are one. -/
theorem eq_of_le (hm : Canonical m e) (hn : Canonical n f) (hle : e ≤ f) (h : (m * 2 ^ e : ℚ) = n * 2 ^ f) :
    m = n ∧ e = f := by
  obtain ⟨k, rfl, rfl⟩ := exists_shift hle h
  have hk : k = 0 := by
    rcases hn.full with hfull | hleast
    · -- a mantissa of full width cannot be doubled
      by_contra hk
      have htwo : 2 ^ 1 ≤ 2 ^ k := Nat.pow_le_pow_right (by decide) (Nat.one_le_iff_ne_zero.2 hk)
      have hwide : 2 ^ 52 * 2 ^ 1 ≤ n * 2 ^ k := Nat.mul_le_mul hfull htwo
      have := hm.small
      omega
    · have := hm.least
      omega
  subst hk
  simp

/-- No number has two canonical pairs of significand and exponent. -/
theorem unique (hm : Canonical m e) (hn : Canonical n f) (h : (m * 2 ^ e : ℚ) = n * 2 ^ f) : m = n ∧ e = f := by
  rcases le_total e f with hle | hle
  · exact hm.eq_of_le hn hle h
  · obtain ⟨hmn, hef⟩ := hn.eq_of_le hm hle h.symm
    exact ⟨hmn.symm, hef.symm⟩

end Canonical

end

def ofUnpacked : UnpackedFloat → Binary
  | .notANumber => nan
  | .infinity sign => infinite (sign == .negative)
  | .zero sign => finite (sign == .negative) 0 leastExponent
  | .finite sign mantissa exponent _ => finite (sign == .negative) mantissa exponent

/-- The exponent unpacked from the bits is the number that stands above the fraction. -/
theorem toNat_unpackExponent (b : BitVec 64) :
    (@UnpackedFloat.unpackExponent Format.binary64 b).toNat = b.toNat / twoPow fractionBits % twoPow 11 := by
  rw [UnpackedFloat.unpackExponent_def, BitVec.extractLsb'_toNat, Nat.shiftRight_eq_div_pow]
  rfl

/-- The mantissa unpacked from the bits is the number that stands in the fraction. -/
theorem toNat_unpackMantissa (b : BitVec 64) :
    (@UnpackedFloat.unpackMantissa Format.binary64 b).toNat = b.toNat % twoPow fractionBits := by
  rw [UnpackedFloat.unpackMantissa_def, BitVec.extractLsb'_toNat, Nat.shiftRight_zero]
  rfl

/-- The sign unpacked from the bits is the highest one. -/
theorem sign_unpackSign (b : BitVec 64) :
    (UnpackedFloat.Sign.ofBitVec (@UnpackedFloat.unpackSign Format.binary64 b) == .negative) =
      (b.toNat / twoPow 63 % 2 == 1) := by
  have hsign : (@UnpackedFloat.unpackSign Format.binary64 b).toNat = b.toNat / twoPow 63 % 2 := by
    rw [UnpackedFloat.unpackSign_def, BitVec.extractLsb'_toNat, Nat.shiftRight_eq_div_pow]
    rfl
  rw [← hsign]
  generalize @UnpackedFloat.unpackSign Format.binary64 b = sign
  revert sign
  decide

/-- A mantissa after its leading one. -/
theorem toNat_lead (v : BitVec 52) : (1#1 ++ v).toNat = twoPow fractionBits + v.toNat := by
  rw [BitVec.toNat_append, ← Nat.shiftLeft_add_eq_or_of_lt v.isLt]
  rfl

/-- Reading the bits of a double gives what they are unpacked to. -/
theorem ofBits_eq_ofUnpacked (b : BitVec 64) : ofBits b.toNat = ofUnpacked (UnpackedFloat.unpack Format.binary64 b) := by
  unfold ofBits UnpackedFloat.unpack
  rw [← toNat_unpackExponent, ← toNat_unpackMantissa, ← sign_unpackSign]
  have hfull (v : BitVec 11) : v.toNat = 2047 ↔ v = -1#11 := by rw [← BitVec.toNat_inj]; rfl
  have hleast (v : BitVec 11) : v.toNat = 0 ↔ v = 0#11 := by rw [← BitVec.toNat_inj]; rfl
  have hnone (v : BitVec 52) : v.toNat = 0 ↔ v = 0#52 := by rw [← BitVec.toNat_inj]; rfl
  -- the greatest exponent is that of what is not finite, and the least one that of what is too small for a leading one
  by_cases hexponent : @UnpackedFloat.unpackExponent Format.binary64 b = -1#11
  · by_cases hmantissa : @UnpackedFloat.unpackMantissa Format.binary64 b = 0#52
    · simp [hexponent, hmantissa, ofUnpacked]
    · simp [hexponent, hmantissa, ofUnpacked, hnone]
  · by_cases hzero : @UnpackedFloat.unpackExponent Format.binary64 b = 0#11
    · by_cases hmantissa : @UnpackedFloat.unpackMantissa Format.binary64 b = 0#52
      · simp [hzero, hmantissa, ofUnpacked]
      · simp [hzero, hmantissa, ofUnpacked]
        rfl
    · simp only [hfull, hleast, hexponent, hzero, if_false]
      simp [ofUnpacked, toNat_lead]
      rfl

/-- A double is told by what it is unpacked to. -/
theorem ofFloat_eq_ofUnpacked (x : Float) : ofFloat x = ofUnpacked x.toModel.unpack :=
  ofBits_eq_ofUnpacked x.toModel.toBits.toBitVec

theorem sign_injective : Function.Injective fun sign : UnpackedFloat.Sign => sign == .negative := by
  rintro (_ | _) (_ | _) h
  case negative.negative | positive.positive => rfl
  all_goals cases h

/-- Different unpacked doubles are told apart. -/
theorem ofUnpacked_injective : Function.Injective ofUnpacked := by
  intro u v h
  cases u <;> cases v <;> simp only [ofUnpacked, reduceCtorEq, infinite.injEq, finite.injEq, sign_injective.eq_iff] at h
  case infinity.infinity => rw [h]
  case notANumber.notANumber => rfl
  case zero.zero => rw [h.1]
  case finite.finite =>
    obtain ⟨rfl, rfl, rfl⟩ := h
    rfl
  all_goals omega

/-- Only what is not a number stands for none. -/
theorem number_ofUnpacked_eq_none {u : UnpackedFloat} : (ofUnpacked u).number? = none ↔ u = .notANumber := by
  cases u <;> simp [ofUnpacked, number?]

/-- A double is NaN exactly if it stands for no number. -/
theorem isNaN_iff_number {x : Float} : x.isNaN = true ↔ (ofFloat x).number? = none := by
  rw [ofFloat_eq_ofUnpacked, number_ofUnpacked_eq_none]
  exact UnpackedFloat.isNaN_iff

/-- A double with significand zero is unpacked to a zero. -/
theorem exists_zero_of_ofUnpacked {u : UnpackedFloat} {negative : Bool} {exponent : ℤ}
    (h : ofUnpacked u = finite negative 0 exponent) : ∃ sign, u = .zero sign := by
  cases u with
  | zero sign => exact ⟨sign, rfl⟩
  | finite sign mantissa exponent hpos =>
    cases h
    cases hpos
  | infinity | notANumber => cases h

/-- Doubles that are one number are one double, but for the sign of zero. -/
theorem unpack_eq_of_number {x y : Float} (h : (ofFloat x).number? = (ofFloat y).number?) :
    x.toModel.unpack = y.toModel.unpack ∨
      ((∃ sign, x.toModel.unpack = .zero sign) ∧ ∃ sign, y.toModel.unpack = .zero sign) := by
  have hone (hsame : ofFloat x = ofFloat y) : x.toModel.unpack = y.toModel.unpack := by
    rw [ofFloat_eq_ofUnpacked, ofFloat_eq_ofUnpacked] at hsame
    exact ofUnpacked_injective hsame
  cases hx : ofFloat x <;> cases hy : ofFloat y <;> rw [hx, hy] at h
  case nan.nan => exact .inl (hone (hx.trans hy.symm))
  case infinite.infinite =>
    cases h
    exact .inl (hone (hx.trans hy.symm))
  case finite.finite s m e t n f =>
    obtain ⟨rfl, rfl⟩ | ⟨rfl, hsize⟩ := sign_and_size_of_number h
    · rw [ofFloat_eq_ofUnpacked] at hx hy
      exact .inr ⟨exists_zero_of_ofUnpacked hx, exists_zero_of_ofUnpacked hy⟩
    · obtain ⟨rfl, rfl⟩ := (canonical_ofFloat hx).unique (canonical_ofFloat hy) hsize
      exact .inl (hone (hx.trans hy.symm))
  all_goals cases h

/-- Doubles are equal exactly when they are one number. -/
theorem beq_iff_number {x y : Float} :
    (x == y) = true ↔ ∃ q, (ofFloat x).number? = some q ∧ (ofFloat y).number? = some q := by
  have hzero (sign : UnpackedFloat.Sign) : (ofUnpacked (.zero sign)).number? = some (.finite 0) := by
    simp [ofUnpacked, number?]
  change x.toModel.unpack.beq y.toModel.unpack = true ↔ _
  rw [UnpackedFloat.beq_iff_ne_notANumber_and_eq]
  constructor
  · rintro ⟨hx, -, heq⟩
    obtain ⟨q, hq⟩ := Option.ne_none_iff_exists'.1 (mt number_ofUnpacked_eq_none.1 hx)
    rw [ofFloat_eq_ofUnpacked, ofFloat_eq_ofUnpacked]
    refine ⟨q, hq, ?_⟩
    obtain heq | ⟨hx, hy⟩ | ⟨hx, hy⟩ := heq
    · rw [← heq, hq]
    all_goals rw [hy, hzero, ← hq, hx, hzero]
  · rintro ⟨q, hx, hy⟩
    have heq := unpack_eq_of_number (hx.trans hy.symm)
    rw [ofFloat_eq_ofUnpacked] at hx hy
    refine ⟨fun hnan => by simp [hnan, ofUnpacked, number?] at hx, fun hnan => by simp [hnan, ofUnpacked, number?] at hy, ?_⟩
    obtain heq | ⟨⟨s, hs⟩, t, ht⟩ := heq
    · exact .inl heq
    · rw [hs, ht]
      cases s <;> cases t <;> simp

end Decimal.Binary

end SteppedLogo
