import SteppedLogo.Proofs.Decimal.Number

namespace SteppedLogo.Decimal.Binary

open Float.Model Float.Model.UnpackedFloat

/-- A whole number is nearest to a number, and the even one where two are. -/
structure Nearest (x : ℚ) (n : ℤ) : Prop where
  near : |x - n| ≤ 1 / 2
  even : |x - n| = 1 / 2 → Even n

/-- A whole number less than one half away is the nearest. -/
theorem Nearest.of_lt {x : ℚ} {n : ℤ} (h : |x - n| < 1 / 2) : Nearest x n := ⟨h.le, fun heq => absurd heq h.ne⟩

/-- The nearest whole number to the opposite is the opposite of the nearest. -/
theorem Nearest.neg {x : ℚ} {n : ℤ} (h : Nearest x n) : Nearest (-x) (-n) := by
  have habs : |-x - ((-n : ℤ) : ℚ)| = |x - n| := by
    rw [Int.cast_neg, ← neg_add', abs_neg, ← sub_eq_add_neg]
  exact ⟨habs ▸ h.near, fun heq => (h.even (habs ▸ heq)).neg⟩

theorem Nearest.self (n : ℤ) : Nearest n n := by
  constructor <;> norm_num

/-- A number below a whole number and a half is rounded to that whole number at most. -/
theorem Nearest.le_of_le {x : ℚ} {n k : ℤ} (h : Nearest x n) (hx : x < k + 1 / 2) : n ≤ k := by
  have hn := (abs_le.1 h.near).1
  have hlt : (n : ℚ) < k + 1 := by linarith
  exact Int.lt_add_one_iff.1 (by exact_mod_cast hlt)

/-- A number above a whole number less a half is rounded to that whole number at least. -/
theorem Nearest.ge_of_le {x : ℚ} {n k : ℤ} (h : Nearest x n) (hx : k - 1 / 2 < x) : k ≤ n := by
  have hn := (abs_le.1 h.near).2
  have hlt : (k : ℚ) - 1 < n := by linarith
  exact Int.sub_one_lt_iff.1 (by exact_mod_cast hlt)

/-- An even number that is near enough is the nearest one. -/
theorem Nearest.eq_of_even {x : ℚ} {n k : ℤ} (h : Nearest x n) (hk : Even k) (hx : |x - k| ≤ 1 / 2) : n = k := by
  by_contra hne
  have hfar : (1 : ℚ) ≤ |(n : ℚ) - k| := by exact_mod_cast Int.one_le_abs (sub_ne_zero.2 hne)
  have hsum : |(n : ℚ) - k| ≤ |x - n| + |x - k| := by
    rw [abs_sub_comm x n]
    exact abs_sub_le ..
  have hnear := h.near
  have htie : |x - n| = 1 / 2 := by linarith
  have hone : |(n : ℚ) - k| = 1 := by linarith
  have hone : |n - k| = 1 := by exact_mod_cast hone
  obtain ⟨a, rfl⟩ := h.even htie
  obtain ⟨b, rfl⟩ := hk
  obtain hone | hone := (abs_eq zero_le_one).1 hone <;> omega

/-- What a mantissa with two bits of the rest tells of a number. -/
def Stands (em : ExtendedMantissa) (x : ℚ) : Prop :=
  match em.roundBit, em.stickyBit with
  | false, false => x = em.mantissa
  | false, true => em.mantissa < x ∧ x < em.mantissa + 1 / 2
  | true, false => x = em.mantissa + 1 / 2
  | true, true => em.mantissa + 1 / 2 < x ∧ x < em.mantissa + 1

namespace Stands

variable {em : ExtendedMantissa} {x : ℚ}

/-- Shifting a significand with its two spare bits by one place stands for half the number. -/
theorem shiftRightOne (h : Stands em x) : Stands em.shiftRightOne (x / 2) := by
  obtain ⟨m, r, s⟩ := em
  obtain ⟨n, rfl | rfl⟩ := Nat.even_or_odd' m
  · have hhalf : 2 * n / 2 = n := by omega
    cases r <;> cases s <;> simp [Stands, ExtendedMantissa.shiftRightOne, hhalf] at h ⊢
    case false.false => linarith
    all_goals constructor <;> linarith
  · have hhalf : (2 * n + 1) / 2 = n := by omega
    cases r <;> cases s <;> simp [Stands, ExtendedMantissa.shiftRightOne, hhalf] at h ⊢
    case false.false => linarith
    all_goals constructor <;> linarith

/-- Shifting a significand with its two spare bits stands for the number divided by the power of two. -/
theorem shiftRight (h : Stands em x) (k : ℕ) : Stands (em >>> k) (x / 2 ^ k) := by
  change Stands (k.repeat ExtendedMantissa.shiftRightOne em) _
  induction k with
  | zero => simpa [Nat.repeat] using h
  | succ k ih =>
    rw [Nat.repeat, pow_succ, ← div_div]
    exact ih.shiftRightOne

/-- The mantissa is rounded to the nearest one. -/
theorem nearest (h : Stands em x) : Nearest x em.roundedMantissa := by
  obtain ⟨m, r, s⟩ := em
  cases r <;> cases s <;>
    simp only [Stands, ExtendedMantissa.roundedMantissa, ExtendedMantissa.accuracy, Accuracy.roundToNearestEven] at h ⊢
  case false.false => exact h ▸ Nearest.self m
  case false.true => exact .of_lt (abs_lt.2 (by push_cast; constructor <;> linarith))
  case true.true => exact .of_lt (abs_lt.2 (by push_cast; constructor <;> linarith))
  case true.false =>
    obtain ⟨n, rfl | rfl⟩ := Nat.even_or_odd' m
    · refine ⟨?_, fun _ => ⟨n, ?_⟩⟩
      · rw [h, Nat.mul_mod_right]
        norm_num
      · omega
    · refine ⟨?_, fun _ => ⟨n + 1, ?_⟩⟩
      · have hone : (2 * n + 1) % 2 = 1 := by omega
        rw [h, hone]
        norm_num
      · omega

end Stands

/-- The exponent of the last place that a double has for a number. -/
def lastPlace (q : ℚ) : ℤ := max (Int.log 2 |q| - fractionBits) leastExponent

/-- A number rounded to its last place. -/
def RoundsTo (q r : ℚ) : Prop := ∃ n : ℤ, Nearest (q / 2 ^ lastPlace q) n ∧ r = n * 2 ^ lastPlace q

theorem lastPlace_neg (q : ℚ) : lastPlace (-q) = lastPlace q := by rw [lastPlace, abs_neg, lastPlace]

/-- The opposite of a number is rounded to the opposite of what it is rounded to. -/
theorem RoundsTo.neg {q r : ℚ} (h : RoundsTo q r) : RoundsTo (-q) (-r) := by
  obtain ⟨n, hn, rfl⟩ := h
  refine ⟨-n, ?_, ?_⟩
  · rw [lastPlace_neg, neg_div]
    exact hn.neg
  · rw [lastPlace_neg, Int.cast_neg, neg_mul]

section

variable {m n : ℕ} {e t : ℤ}

/-- The binary logarithm of a significand with its exponent is the sum of both sizes. -/
theorem log_size (hm : 0 < m) (e : ℤ) : Int.log 2 (m * 2 ^ e : ℚ) = m.log2 + e := by
  have hpos : (0 : ℚ) < m * 2 ^ e := by positivity
  have hlow : (2 : ℚ) ^ (m.log2 : ℤ) ≤ m := by exact_mod_cast Nat.log2_self_le hm.ne'
  have hhigh : (m : ℚ) < 2 ^ ((m.log2 : ℤ) + 1) := by exact_mod_cast Nat.lt_log2_self
  apply le_antisymm
  · refine Int.lt_add_one_iff.1 ((Int.lt_zpow_iff_log_lt one_lt_two hpos).1 ?_)
    rw [Nat.cast_ofNat, add_right_comm, zpow_add₀ two_ne_zero]
    gcongr
  · refine (Int.zpow_le_iff_le_log one_lt_two hpos).1 ?_
    rw [Nat.cast_ofNat, zpow_add₀ two_ne_zero]
    gcongr

/-- The place to which the digits of a mantissa are shifted. -/
theorem targetExponent_eq (hm : 0 < m) (e : ℤ) :
    Format.binary64.targetExponent (totalExponent m e) = lastPlace (m * 2 ^ e) := by
  have hpos : (0 : ℚ) < m * 2 ^ e := by positivity
  rw [lastPlace, abs_of_pos hpos, log_size hm]
  simp only [Format.targetExponent, totalExponent, Format.mantissaBits, Format.minExponent, fractionBits, leastExponent]
  norm_num
  omega

/-- A significand of 53 bits has a logarithm of at most 52. -/
theorem log2_le (hn : n < 2 ^ 53) : n.log2 ≤ 52 := by
  obtain rfl | hpos := n.eq_zero_or_pos
  · decide
  · exact Nat.lt_succ_iff.1 ((Nat.log2_lt hpos.ne').2 hn)

/-- A mantissa that is not too wide is not shifted, from the least exponent on. -/
theorem shift_small (hn : n < 2 ^ 53) (ht : leastExponent ≤ t) :
    shiftToTargetExponent Format.binary64 n t .exact = (⟨n, false, false⟩, t) := by
  have hlog := log2_le hn
  have htarget : Format.binary64.targetExponent (totalExponent n t) ≤ t := by
    simp only [Format.targetExponent, totalExponent, Format.mantissaBits, Format.minExponent]
    unfold leastExponent at ht
    omega
  have hshift : (Format.binary64.targetExponent (totalExponent n t) - t).toNat = 0 := by omega
  rw [shiftToTargetExponent, shiftToExponent, hshift, Nat.cast_zero, add_zero]
  rfl

/-- A mantissa that rounding has widened is shifted by one. -/
theorem shift_full (ht : leastExponent ≤ t) :
    shiftToTargetExponent Format.binary64 (2 ^ 53) t .exact = (⟨2 ^ 52, false, false⟩, t + 1) := by
  have htarget : Format.binary64.targetExponent (totalExponent (2 ^ 53) t) = t + 1 := by
    simp only [Format.targetExponent, totalExponent, Format.mantissaBits, Format.minExponent, Nat.log2_two_pow]
    unfold leastExponent at ht
    omega
  rw [shiftToTargetExponent, shiftToExponent, htarget, add_sub_cancel_left]
  rfl

/-- What rounding makes of a number: a mantissa and an exponent as a double has them, unless the exponent is too
    great. -/
structure Rounded (sign : Sign) (q : ℚ) (u : UnpackedFloat) (n f : ℕ) (g : ℤ) : Prop where
  nearest : Nearest (q / 2 ^ lastPlace q) n
  size : (f * 2 ^ g : ℚ) = n * 2 ^ lastPlace q
  canonical : Canonical f g
  place : n < 2 ^ 53 ∧ g = lastPlace q ∨ n = 2 ^ 53 ∧ g = lastPlace q + 1
  unpacked : ofUnpacked u = finite (sign == .negative) f g

/-- In units of its last place, a number has the width of a mantissa. -/
theorem size_lt_of_lastPlace {q : ℚ} (hq : 0 < q) : q / 2 ^ lastPlace q < 2 ^ 53 := by
  have hlog : Int.log 2 q + 1 ≤ 53 + lastPlace q := by
    unfold lastPlace fractionBits
    rw [abs_of_pos hq]
    omega
  have hlt := Int.lt_zpow_succ_log_self one_lt_two q
  rw [Nat.cast_ofNat] at hlt
  rw [div_lt_iff₀ (by positivity)]
  calc q < 2 ^ (Int.log 2 q + 1) := hlt
    _ ≤ 2 ^ (53 + lastPlace q) := zpow_le_zpow_right₀ one_le_two hlog
    _ = 2 ^ 53 * 2 ^ lastPlace q := zpow_add₀ two_ne_zero ..

/-- It has the full width, unless its last place is the least one. -/
theorem le_size_of_lastPlace {q : ℚ} (hq : 0 < q) (h : lastPlace q ≠ leastExponent) : 2 ^ 52 ≤ q / 2 ^ lastPlace q := by
  have hlog : 52 + lastPlace q = Int.log 2 q := by
    unfold lastPlace fractionBits at h ⊢
    rw [abs_of_pos hq] at h ⊢
    omega
  have hle := Int.zpow_log_le_self one_lt_two hq
  rw [Nat.cast_ofNat] at hle
  rw [le_div_iff₀ (by positivity)]
  calc (2 ^ 52 * 2 ^ lastPlace q : ℚ) = 2 ^ (52 + lastPlace q) := (zpow_add₀ two_ne_zero ..).symm
    _ = 2 ^ Int.log 2 q := by rw [hlog]
    _ ≤ q := hle

/-- No number has its last place below the least exponent. -/
theorem leastExponent_le_lastPlace (q : ℚ) : leastExponent ≤ lastPlace q := le_max_right ..

/-- Rounding leaves a mantissa of full width, or of one digit more, unless the last place is the least one. -/
theorem Nearest.width {q : ℚ} (hq : 0 < q) (h : Nearest (q / 2 ^ lastPlace q) n) :
    n ≤ 2 ^ 53 ∧ (2 ^ 52 ≤ n ∨ lastPlace q = leastExponent) := by
  have hwidth := size_lt_of_lastPlace hq
  constructor
  · have hle : (n : ℤ) ≤ 2 ^ 53 := h.le_of_le (by push_cast; linarith)
    exact_mod_cast hle
  · refine or_iff_not_imp_right.2 fun hplace => ?_
    have hfull := le_size_of_lastPlace hq hplace
    have hge : (2 ^ 52 : ℤ) ≤ n := h.ge_of_le (by push_cast; linarith)
    exact_mod_cast hge

/-- The first shift, to the last place of the number. -/
theorem shift_nearest (hm : 0 < m) (he : e ≤ lastPlace (m * 2 ^ e)) : ∃ em,
    shiftToTargetExponent Format.binary64 m e .exact = (em, lastPlace (m * 2 ^ e)) ∧
      Nearest (m * 2 ^ e / 2 ^ lastPlace (m * 2 ^ e)) em.roundedMantissa := by
  obtain ⟨k, hk⟩ := Int.le.dest he
  refine ⟨ExtendedMantissa.mk m false false >>> k, ?_, ?_⟩
  · have hshift : (lastPlace (m * 2 ^ e) - e).toNat = k := by omega
    rw [shiftToTargetExponent, targetExponent_eq hm, shiftToExponent, hshift, hk]
    rfl
  · have hsize : (m * 2 ^ e / 2 ^ lastPlace (m * 2 ^ e) : ℚ) = m / 2 ^ k := by
      rw [← hk, zpow_add₀ two_ne_zero, zpow_natCast]
      field_simp
    have hexact : Stands ⟨m, false, false⟩ (m : ℚ) := rfl
    rw [hsize]
    exact (hexact.shiftRight k).nearest

/-- A significand whose exponent is at most its last place is rounded to that place. -/
theorem roundWithAccuracy_rounded (sign : Sign) (hm : 0 < m) (he : e ≤ lastPlace (m * 2 ^ e)) :
    ∃ n f g, Rounded sign (m * 2 ^ e) (roundWithAccuracy Format.binary64 sign m e .exact) n f g := by
  have hleast := leastExponent_le_lastPlace (m * 2 ^ e)
  obtain ⟨em, hshift, hnearest⟩ := shift_nearest hm he
  rw [roundWithAccuracy, hshift]
  dsimp only
  generalize em.roundedMantissa = n at hnearest ⊢
  obtain ⟨hle, hwide⟩ := hnearest.width (by positivity)
  obtain hlt | rfl := hle.lt_or_eq
  · rw [shift_small hlt hleast]
    refine ⟨n, n, lastPlace (m * 2 ^ e), hnearest, rfl, ⟨hleast, hlt, hwide⟩, .inl ⟨hlt, rfl⟩, ?_⟩
    dsimp only
    split
    · next hzero =>
      obtain hwide | hplace := hwide
      · omega
      · rw [hplace, hzero]
        rfl
    · rfl
  · -- the carry makes one digit too many, and the shift that takes it back loses none
    rw [shift_full hleast]
    refine ⟨2 ^ 53, 2 ^ 52, lastPlace (m * 2 ^ e) + 1, hnearest, ?_, ⟨?_, by decide, .inl le_rfl⟩, .inr ⟨rfl, rfl⟩, rfl⟩
    · rw [zpow_add_one₀ two_ne_zero]
      push_cast
      ring
    · omega

/-- Decreasing the exponent keeps the number. -/
theorem decreaseExponent_size (m : ℕ) (e t : ℤ) :
    ((decreaseExponent m e t).1 * 2 ^ (decreaseExponent m e t).2 : ℚ) = m * 2 ^ e := by
  unfold decreaseExponent
  dsimp only
  generalize (e - t).toNat = k
  rw [Nat.shiftLeft_eq, zpow_sub₀ two_ne_zero, zpow_natCast]
  push_cast
  field_simp

/-- The decreased exponent is at most the one asked for. -/
theorem decreaseExponent_le (m : ℕ) (e t : ℤ) : (decreaseExponent m e t).2 ≤ t := by
  unfold decreaseExponent
  dsimp only
  omega

/-- Where the exponent asked for is below, the decreased significand stands at it. -/
theorem decreaseExponent_size_of_le (m : ℕ) (h : t ≤ e) : ((decreaseExponent m e t).1 * 2 ^ t : ℚ) = m * 2 ^ e := by
  have hexponent : (decreaseExponent m e t).2 = t := by
    unfold decreaseExponent
    dsimp only
    omega
  rw [← decreaseExponent_size m e t, hexponent]

theorem decreaseExponent_pos (hm : 0 < m) (e t : ℤ) : 0 < (decreaseExponent m e t).1 := by
  unfold decreaseExponent
  dsimp only
  rw [Nat.shiftLeft_eq]
  positivity

/-- Every positive significand with an exponent is rounded to its last place. -/
theorem round_rounded (sign : Sign) (hm : 0 < m) (e : ℤ) :
    ∃ n f g, Rounded sign (m * 2 ^ e) (UnpackedFloat.round Format.binary64 sign m e) n f g := by
  have hsize := decreaseExponent_size m e (lastPlace (m * 2 ^ e))
  have hle := decreaseExponent_le m e (lastPlace (m * 2 ^ e))
  have hpos := decreaseExponent_pos hm e (lastPlace (m * 2 ^ e))
  rw [UnpackedFloat.round, targetExponent_eq hm]
  generalize decreaseExponent m e (lastPlace (m * 2 ^ e)) = r at hsize hle hpos ⊢
  rw [← hsize] at hle ⊢
  exact roundWithAccuracy_rounded sign hpos hle

end

end SteppedLogo.Decimal.Binary
