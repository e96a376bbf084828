import SteppedLogo.Decimal.Rounding
import SteppedLogo.Proofs.Decimal.Sum

namespace SteppedLogo.Decimal

open Float.Model

namespace Binary

section

variable {m : ℕ} {e : ℤ}

/-- A mantissa that is not too wide is shifted to the width of a double. -/
theorem magnitudeBits_eq_encode (hm : 0 < m) (hsmall : m < 2 ^ 53) (hleast : leastExponent ≤ e) (hzero : e ≤ 0) :
    ∃ f g, Canonical f g ∧ g ≤ greatestExponent ∧ (f * 2 ^ g : ℚ) = m * 2 ^ e ∧ magnitudeBits m e = encode f g := by
  have hlog := log2_le hsmall
  have hwidth : twoPow fractionBits = 2 ^ 52 := by decide
  unfold magnitudeBits
  rw [if_neg hm.ne', hwidth]
  dsimp only
  generalize htarget : max (e + m.log2 - fractionBits) leastExponent = g
  unfold fractionBits leastExponent at *
  obtain ⟨k, rfl⟩ : ∃ k : ℕ, e = g + k := ⟨(e - g).toNat, by omega⟩
  have hle : g ≤ g + k := by omega
  rw [if_pos hle, add_sub_cancel_left, Int.toNat_natCast]
  have hsize : ((m * twoPow k : ℕ) * 2 ^ g : ℚ) = m * 2 ^ (g + k) := by
    rw [Nat.cast_mul, twoPow_cast, zpow_add₀ two_ne_zero, zpow_natCast]
    ring
  have hsmall : m * twoPow k < 2 ^ 53 := calc
    m * 2 ^ k < 2 ^ (m.log2 + 1) * 2 ^ k := by gcongr; exact Nat.lt_log2_self
    _ = 2 ^ (m.log2 + 1 + k) := (pow_add ..).symm
    _ ≤ 2 ^ 53 := Nat.pow_le_pow_right (by decide) (by omega)
  have hwide (hg : g ≠ -1074) : 2 ^ 52 ≤ m * twoPow k := calc
    2 ^ 52 = 2 ^ m.log2 * 2 ^ k := by rw [← pow_add]; congr 1; omega
    _ ≤ m * 2 ^ k := by gcongr; exact Nat.log2_self_le hm.ne'
  refine ⟨m * twoPow k, g, ⟨by unfold leastExponent; omega, hsmall, (em (g = -1074)).symm.imp_left hwide⟩,
    by unfold greatestExponent; omega, hsize, ?_⟩
  rw [encode, if_neg (by omega : ¬ g > 971)]

/-- A number that a double holds is the number of its double. -/
theorem isNumber_toFloat (negative : Bool) (hm : 0 < m) (hsmall : m < 2 ^ 53) (hleast : leastExponent ≤ e)
    (hzero : e ≤ 0) : IsNumber (toFloat (finite negative m e)) ((if negative then -1 else 1) * (m * 2 ^ e)) := by
  obtain ⟨f, g, hcanonical, hgreatest, hsize, hmagnitude⟩ := magnitudeBits_eq_encode hm hsmall hleast hzero
  have hbits : (BitVec.ofNat 64 (signBit negative + magnitudeBits m e)).toNat = signBit negative + encode f g := by
    have hsign : signBit negative ≤ 2 ^ 63 := by cases negative <;> decide
    have hlt := encode_lt hcanonical hgreatest
    rw [hmagnitude]
    exact toNat_ofNat_of_lt (by omega)
  have hholds : Holds (UnpackedFloat.unpack Format.binary64 (BitVec.ofNat 64 (signBit negative + magnitudeBits m e)))
      ((if negative then -1 else 1) * (f * 2 ^ g)) :=
    ⟨negative, f, g, by rw [← ofBits_eq_ofUnpacked, hbits, ofBits_encode negative hcanonical hgreatest],
      hcanonical, hgreatest, rfl⟩
  rw [← hsize]
  exact .of_pack hholds

end

/-- Below the circle, the last place is that of the circle or a finer one. -/
theorem lastPlace_le_of_short {rest : ℚ} (hpos : 0 < rest) (hless : rest < 360) : lastPlace (360 - rest) ≤ -44 := by
  have hshort : 0 < 360 - rest := sub_pos.2 hless
  have hlog : Int.log 2 (360 - rest) ≤ 8 := by
    refine Int.lt_add_one_iff.1 ((Int.lt_zpow_iff_log_lt one_lt_two hshort).1 ?_)
    norm_num
    linarith
  rw [lastPlace, abs_of_pos hshort]
  unfold fractionBits leastExponent
  omega

theorem le_lastPlace_of_short {rest : ℚ} (hsmall : rest ≤ 2 ^ (-45 : ℤ)) : -44 ≤ lastPlace (360 - rest) := by
  have htiny : (2 : ℚ) ^ (-45 : ℤ) ≤ 1 := by norm_num
  have hshort : 0 < 360 - rest := by linarith
  have hlog : 8 ≤ Int.log 2 (360 - rest) := by
    refine (Int.zpow_le_iff_le_log one_lt_two hshort).1 ?_
    norm_num
    linarith
  rw [lastPlace, abs_of_pos hshort]
  unfold fractionBits leastExponent
  omega

/-- The circle is a whole number of its last places and of finer ones, and an even one. -/
theorem exists_circle {t : ℤ} (ht : t ≤ -44) : ∃ circle : ℤ, Even circle ∧ (360 : ℚ) = circle * 2 ^ t := by
  obtain ⟨k, hk⟩ := Int.le.dest ht
  refine ⟨360 * 2 ^ (44 + k), (by decide : Even (360 : ℤ)).mul_right _, ?_⟩
  have hpower : (2 : ℚ) ^ (44 + k) * 2 ^ t = 1 := by
    rw [← zpow_natCast, ← zpow_add₀ two_ne_zero]
    exact (zpow_eq_one_iff_right₀ zero_le_two (by norm_num)).2 (by omega)
  push_cast
  rw [mul_assoc, hpower, mul_one]

/-- Just short of a full circle, the nearest double is the circle itself. -/
theorem RoundsTo.short_of_circle {rest r : ℚ} (hpos : 0 < rest) (hless : rest < 360) (h : RoundsTo (360 - rest) r) :
    0 ≤ r ∧ r ≤ 360 ∧ (r = 360 ↔ rest ≤ 2 ^ (-45 : ℤ)) := by
  have hplace := lastPlace_le_of_short hpos hless
  have hcoarse (hsmall : rest ≤ 2 ^ (-45 : ℤ)) := le_lastPlace_of_short hsmall
  obtain ⟨n, hnearest, rfl⟩ := h
  obtain ⟨circle, heven, hcircle⟩ := exists_circle hplace
  have hunit : (0 : ℚ) < 2 ^ lastPlace (360 - rest) := by positivity
  generalize lastPlace (360 - rest) = t at *
  have hscaled : (360 - rest) / 2 ^ t = circle - rest / 2 ^ t := by
    rw [sub_div, (div_eq_iff hunit.ne').2 hcircle]
  rw [hscaled] at hnearest
  have hrest : 0 < rest / 2 ^ t := by positivity
  have hin : rest / 2 ^ t < circle := by
    rw [div_lt_iff₀ hunit, ← hcircle]
    exact hless
  have hlow : 0 ≤ n := hnearest.ge_of_le (by push_cast; linarith)
  have hhigh : n ≤ circle := hnearest.le_of_le (by linarith)
  have hall : n * 2 ^ t = (360 : ℚ) ↔ n = circle := by
    rw [hcircle, mul_left_inj' hunit.ne', Int.cast_inj]
  refine ⟨by positivity, ?_, hall.trans ⟨fun heq => ?_, fun hsmall => ?_⟩⟩
  · rw [hcircle]
    exact mul_le_mul_of_nonneg_right (by exact_mod_cast hhigh) hunit.le
  · have hnear := (abs_le.1 hnearest.near).1
    rw [heq] at hnear
    have hhalf : rest / 2 ^ t ≤ 1 / 2 := by linarith
    calc rest ≤ 1 / 2 * 2 ^ t := (div_le_iff₀ hunit).1 hhalf
      _ ≤ 1 / 2 * 2 ^ (-44 : ℤ) := by gcongr; norm_num
      _ = 2 ^ (-45 : ℤ) := by norm_num
  · refine hnearest.eq_of_even heven ?_
    rw [sub_sub_cancel_left, abs_neg, abs_of_pos hrest, div_le_iff₀ hunit, hplace.antisymm (hcoarse hsmall)]
    exact hsmall.trans_eq (by norm_num)

end Binary

open Binary

section

variable {m divisor : ℕ} {e : ℤ}

/-- What whole multiples of the divisor leave of a number. -/
theorem remainder_size (hdivisor : 0 < divisor) (m : ℕ) (e : ℤ) : ∃ k : ℕ,
    (m * 2 ^ e : ℚ) = k * divisor + (remainder divisor m e).1 * 2 ^ (remainder divisor m e).2 ∧
      ((remainder divisor m e).1 * 2 ^ (remainder divisor m e).2 : ℚ) < divisor := by
  unfold remainder
  split
  · next hexponent =>
    obtain ⟨n, rfl⟩ := Int.eq_ofNat_of_zero_le hexponent
    change ∃ k : ℕ, (m * 2 ^ (n : ℤ) : ℚ) = k * divisor + (m * twoPow n % divisor : ℕ) * 2 ^ (0 : ℤ) ∧
      ((m * twoPow n % divisor : ℕ) * 2 ^ (0 : ℤ) : ℚ) < divisor
    have hsplit : (m * twoPow n : ℚ) = (m * twoPow n / divisor : ℕ) * divisor + (m * twoPow n % divisor : ℕ) := by
      exact_mod_cast (Nat.div_add_mod' (m * twoPow n) divisor).symm
    rw [zpow_zero, mul_one, zpow_natCast, ← twoPow_cast]
    exact ⟨_, hsplit, by exact_mod_cast Nat.mod_lt _ hdivisor⟩
  · next hexponent =>
    obtain ⟨n, rfl⟩ : ∃ n : ℕ, e = -n := ⟨(-e).toNat, by omega⟩
    rw [neg_neg, Int.toNat_natCast]
    have hpower : (0 : ℚ) < 2 ^ (-n : ℤ) := by positivity
    have hunit : (twoPow n * 2 ^ (-n : ℤ) : ℚ) = 1 := by
      rw [twoPow_cast, zpow_neg, zpow_natCast, mul_inv_cancel₀ (by positivity)]
    have hsplit : (m : ℚ) =
        (m / (divisor * twoPow n) : ℕ) * (divisor * twoPow n) + (m % (divisor * twoPow n) : ℕ) := by
      exact_mod_cast (Nat.div_add_mod' m (divisor * twoPow n)).symm
    have hless : ((m % (divisor * twoPow n) : ℕ) : ℚ) < divisor * twoPow n := by
      exact_mod_cast Nat.mod_lt _ (Nat.mul_pos hdivisor (Nat.two_pow_pos n))
    refine ⟨m / (divisor * twoPow n), ?_, ?_⟩
    · calc (m * 2 ^ (-n : ℤ) : ℚ)
        _ = (m / (divisor * twoPow n) : ℕ) * divisor * (twoPow n * 2 ^ (-n : ℤ)) +
            (m % (divisor * twoPow n) : ℕ) * 2 ^ (-n : ℤ) := by rw [hsplit]; ring
        _ = _ := by rw [hunit, mul_one]
    · calc _ < (divisor * twoPow n * 2 ^ (-n : ℤ) : ℚ) := mul_lt_mul_of_pos_right hless hpower
        _ = divisor := by rw [mul_assoc, hunit, mul_one]

theorem Binary.Canonical.remainder (h : Canonical m e) (hdivisor : 0 < divisor) (hsmall : divisor ≤ 2 ^ 53) :
    (Decimal.remainder divisor m e).1 < 2 ^ 53 ∧ leastExponent ≤ (Decimal.remainder divisor m e).2 ∧
      (Decimal.remainder divisor m e).2 ≤ 0 := by
  unfold Decimal.remainder
  split
  · exact ⟨(Nat.mod_lt _ hdivisor).trans_le hsmall, (by decide : leastExponent ≤ 0), le_rfl⟩
  · next hexponent => exact ⟨(Nat.mod_le ..).trans_lt h.small, h.least, (not_le.1 hexponent).le⟩

end

/-- A number before zero that is short of a multiple of the full circle by at most half a last place of the circle. -/
def FallsShort (p : ℚ) : Prop := p < 0 ∧ ∃ k : ℤ, 0 < k * 360 - p ∧ k * 360 - p ≤ 2 ^ (-45 : ℤ)

theorem fallsShort_iff {k : ℕ} {rest : ℚ} (hnonneg : 0 ≤ rest) (hless : rest < 360) :
    FallsShort (-(k * 360 + rest)) ↔ 0 < rest ∧ rest ≤ 2 ^ (-45 : ℤ) := by
  constructor
  · rintro ⟨-, j, hpos, hle⟩
    have htiny : (2 : ℚ) ^ (-45 : ℤ) < 360 := by norm_num
    have hlow : (-1 : ℚ) < j + k := by linarith
    have hhigh : (j + k : ℚ) < 1 := by linarith
    have hsame : j = -k := by
      have hlow : -1 < j + k := by exact_mod_cast hlow
      have hhigh : j + k < 1 := by exact_mod_cast hhigh
      omega
    rw [hsame] at hpos hle
    push_cast at hpos hle
    constructor <;> linarith
  · rintro ⟨hpos, hle⟩
    refine ⟨by linarith [k.cast_nonneg (α := ℚ)], -k, ?_, ?_⟩ <;> push_cast <;> linarith

theorem isNumber_circle : IsNumber (Float.ofNat 360) 360 := by
  have hbits : ofFloat (Float.ofNat 360) = .finite false (360 * 2 ^ 44) (-44) := by decide +kernel
  convert IsNumber.of_binary hbits
  norm_num

theorem isNumber_zero : IsNumber 0.0 0 := by
  have hbits : ofFloat 0.0 = .finite false 0 leastExponent := by decide +kernel
  convert IsNumber.of_binary hbits
  simp

theorem circle_lt_overflow : 360 < overflow := calc
  (360 : ℚ) < 2 ^ 53 - 1 / 2 := by norm_num
  _ ≤ overflow := le_mul_of_one_le_right (by norm_num) (one_le_zpow₀ one_le_two (by decide))

/-- Of a full circle there is left a number from zero on which is less than the circle, or where it falls short of a
    multiple by too little, the circle itself. -/
theorem floorMod_circle {x : Float} {p : ℚ} (hx : IsNumber x p) :
    ∃ q, IsNumber (floorMod x 360) q ∧ 0 ≤ q ∧ q ≤ 360 ∧ (q = 360 ↔ FallsShort p) := by
  unfold IsNumber at hx
  unfold floorMod
  cases hbinary : ofFloat x with
  | nan | infinite => rw [hbinary] at hx; cases hx
  | finite negative m e =>
    rw [hbinary] at hx
    cases hx
    obtain ⟨k, hsize, hless⟩ := remainder_size (by decide : 0 < 360) m e
    obtain ⟨hsmall, hleast, hzero⟩ := (canonical_ofFloat hbinary).remainder (by decide : 0 < 360) (by decide)
    rw [hsize]
    dsimp only
    generalize remainder 360 m e = r at *
    obtain ⟨rest, f⟩ := r
    rw [Nat.cast_ofNat] at hless ⊢
    dsimp only at hless hsmall hleast hzero ⊢
    by_cases hnone : rest = 0
    · rw [if_pos hnone, hnone, Nat.cast_zero, zero_mul]
      refine ⟨0, isNumber_zero, le_rfl, by norm_num, iff_of_false (by norm_num) ?_⟩
      cases negative with
      | false => exact fun hshort => absurd hshort.1 (by simp)
      | true =>
        simp only [reduceIte, neg_one_mul, fallsShort_iff le_rfl (by norm_num : (0 : ℚ) < 360)]
        exact fun hpos => lt_irrefl _ hpos.1
    have hrest := Nat.pos_of_ne_zero hnone
    have hpos : (0 : ℚ) < rest * 2 ^ f := by positivity
    have hnumber := isNumber_toFloat negative hrest hsmall hleast hzero
    rw [if_neg hnone]
    cases negative with
    | false =>
      simp only [Bool.false_eq_true, reduceIte, one_mul] at hnumber ⊢
      refine ⟨_, hnumber, hpos.le, hless.le, iff_of_false hless.ne fun hshort => absurd hshort.1 ?_⟩
      exact not_lt.2 (by positivity)
    | true =>
      simp only [reduceIte, neg_one_mul, fallsShort_iff hpos.le hless] at hnumber ⊢
      have hsum : |-(rest * 2 ^ f : ℚ) + 360| < overflow := by
        refine lt_of_lt_of_le ?_ circle_lt_overflow.le
        rw [abs_lt]
        constructor <;> linarith
      obtain ⟨q, hrounds, hq⟩ := hnumber.add isNumber_circle hsum
      rw [neg_add_eq_sub] at hrounds
      obtain ⟨hnonneg, hle, hall⟩ := hrounds.short_of_circle hpos hless
      exact ⟨q, hq, hnonneg, hle, hall.trans (and_iff_right hpos).symm⟩

end SteppedLogo.Decimal
