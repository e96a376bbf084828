import SteppedLogo.Proofs.Decimal.Nearest

namespace SteppedLogo.Decimal.Binary

open Float.Model Float.Model.UnpackedFloat

section

variable {m : ℕ} {e : ℤ}

/-- The exponent of the greatest doubles. -/
def greatestExponent : ℤ := 971

/-- The bits of a mantissa and an exponent as a double has them. -/
def encode (m : ℕ) (e : ℤ) : ℕ := if m < 2 ^ 52 then m else (e + 1075).toNat * 2 ^ 52 + (m - 2 ^ 52)

/-- The bits of a canonical double without its sign take 63 places. -/
theorem encode_lt (h : Canonical m e) (he : e ≤ greatestExponent) : encode m e < 2 ^ 63 := by
  have hsmall := h.small
  unfold greatestExponent at he
  unfold encode
  split <;> omega

/-- The fields of a double are found again in its bits. -/
theorem ofBits_fields (negative : Bool) {biased fraction : ℕ} (hbiased : biased < 2047)
    (hfraction : fraction < 2 ^ 52) :
    ofBits (signBit negative + (biased * 2 ^ 52 + fraction)) =
      if biased = 0 then finite negative fraction leastExponent
      else finite negative (2 ^ 52 + fraction) ((biased : ℤ) - 1075) := by
  have hsign : twoPow 63 = 2 ^ 63 := by decide
  have hwidth : twoPow fractionBits = 2 ^ 52 := by decide
  have hrange : twoPow 11 = 2048 := by decide
  unfold ofBits signBit
  simp only [hsign, hwidth, hrange]
  generalize hbits : (if negative = true then 2 ^ 63 else 0) + (biased * 2 ^ 52 + fraction) = bits
  have hnegative : (bits / 2 ^ 63 % 2 == 1) = negative := by
    cases negative <;> simp <;> simp at hbits <;> omega
  have hexponent : bits / 2 ^ 52 % 2048 = biased := by split at hbits <;> omega
  have hrest : bits % 2 ^ 52 = fraction := by split at hbits <;> omega
  rw [hnegative, hexponent, hrest, if_neg hbiased.ne]

/-- The bits of a canonical double are read back as its sign, significand and exponent. -/
theorem ofBits_encode (negative : Bool) (h : Canonical m e) (he : e ≤ greatestExponent) :
    ofBits (signBit negative + encode m e) = finite negative m e := by
  have hleast := h.least
  have hsmall := h.small
  unfold leastExponent at hleast
  unfold greatestExponent at he
  unfold encode
  split
  · next hnarrow =>
    have hfields := ofBits_fields negative (by decide : 0 < 2047) hnarrow
    rw [zero_mul, zero_add, if_pos rfl] at hfields
    rw [hfields, h.full.resolve_left (not_le.2 hnarrow)]
  · next hwide =>
    have hbiased : (e + 1075).toNat < 2047 := by omega
    have hfields := ofBits_fields negative hbiased (by omega : m - 2 ^ 52 < 2 ^ 52)
    rw [if_neg (by omega), Nat.add_sub_cancel' (not_lt.1 hwide)] at hfields
    rw [hfields]
    congr 1
    omega

theorem toNat_ofNat_of_lt {w k : ℕ} (h : k < 2 ^ w) : (BitVec.ofNat w k).toNat = k := by
  rw [BitVec.toNat_ofNat, Nat.mod_eq_of_lt h]

/-- The number packed from sign, exponent and mantissa is their sum, each at its place. -/
theorem toNat_packComponents (sign : Sign) (exponent : BitVec 11) (mantissa : BitVec 52) :
    (packComponents Format.binary64 sign exponent mantissa).toNat =
      signBit (sign == .negative) + (exponent.toNat * 2 ^ 52 + mantissa.toNat) := by
  have hsign : sign.toBitVec.toNat * 2 ^ 63 = signBit (sign == .negative) := by cases sign <;> decide
  rw [packComponents, BitVec.toNat_append, BitVec.toNat_append, ← Nat.shiftLeft_add_eq_or_of_lt exponent.isLt,
    ← Nat.shiftLeft_add_eq_or_of_lt mantissa.isLt, Nat.shiftLeft_eq, Nat.shiftLeft_eq, ← hsign]
  ring

/-- A canonical double is packed into the bits that encode it. -/
theorem toNat_pack (sign : Sign) (hpos : 0 < m) (h : Canonical m e) (he : e ≤ greatestExponent) :
    (UnpackedFloat.pack Format.binary64 (.finite sign m e hpos)).toNat = signBit (sign == .negative) + encode m e := by
  have hleast := h.least
  have hsmall := h.small
  unfold leastExponent at hleast
  unfold greatestExponent at he
  have hbiased : e + (Format.binary64.exponentBias : ℤ) + (Format.binary64.mantissaBitsWithoutImplicit : ℤ) =
      e + 1075 := by
    change e + (1023 : ℕ) + (52 : ℕ) = _
    omega
  have hroom : ¬ 2 ^ 11 ≤ (e + 1075).toNat + 1 := by omega
  have hpack : UnpackedFloat.pack Format.binary64 (.finite sign m e hpos) =
      if m.log2 + 1 = 53 then
        packComponents Format.binary64 sign (BitVec.ofNat 11 (e + 1075).toNat) (BitVec.ofNat 52 m)
      else packComponents Format.binary64 sign 0#11 (BitVec.ofNat 52 m) := by
    rw [UnpackedFloat.pack, hbiased]
    exact if_neg hroom
  rw [hpack]
  by_cases hnarrow : m < 2 ^ 52
  · have hlog : m.log2 < 52 := (Nat.log2_lt hpos.ne').2 hnarrow
    have hsubnormal : ¬ m.log2 + 1 = 53 := by omega
    rw [if_neg hsubnormal, toNat_packComponents, toNat_ofNat_of_lt hnarrow, encode, if_pos hnarrow]
    simp
  · have hlog : m.log2 + 1 = 53 := congrArg (· + 1) ((Nat.log2_eq_iff hpos.ne').2 ⟨not_lt.1 hnarrow, hsmall⟩)
    have hrest : (BitVec.ofNat 52 m).toNat = m - 2 ^ 52 := by
      rw [BitVec.toNat_ofNat, Nat.mod_eq_sub_mod (not_lt.1 hnarrow), Nat.mod_eq_of_lt (by omega)]
    rw [if_pos hlog, toNat_packComponents, toNat_ofNat_of_lt (by omega : (e + 1075).toNat < 2 ^ 11), hrest, encode,
      if_neg hnarrow]

/-- A mantissa and an exponent as a double has them are found again where they are packed. -/
theorem unpack_pack_finite (sign : Sign) (hpos : 0 < m) (h : Canonical m e) (he : e ≤ greatestExponent) :
    (Float.Model.pack (.finite sign m e hpos)).unpack = .finite sign m e hpos := by
  apply ofUnpacked_injective
  change ofUnpacked (UnpackedFloat.unpack Format.binary64 (UnpackedFloat.pack Format.binary64 _)) = _
  rw [← ofBits_eq_ofUnpacked, toNat_pack sign hpos h he]
  exact ofBits_encode _ h he

/-- No finite double has an exponent above the greatest. -/
theorem le_greatestExponent {x : Float} {negative : Bool} (h : ofFloat x = finite negative m e) :
    e ≤ greatestExponent := by
  have hbiased : x.toBits.toNat / twoPow fractionBits % twoPow 11 < 2048 := Nat.mod_lt _ (by decide)
  unfold ofFloat ofBits at h
  unfold greatestExponent
  dsimp only at h
  split at h
  · split at h <;> cases h
  · split at h <;> cases h
    · decide
    · omega

/-- The last place of a canonical double that is not zero is its exponent. -/
theorem Canonical.lastPlace_eq (h : Canonical m e) (hm : 0 < m) : lastPlace (m * 2 ^ e) = e := by
  have hlog := log2_le h.small
  have hpos : (0 : ℚ) < m * 2 ^ e := by positivity
  rw [lastPlace, abs_of_pos hpos, log_size hm]
  unfold fractionBits
  obtain hfull | hleast := h.full
  · have hge := (Nat.le_log2 hm.ne').2 hfull
    have := h.least
    omega
  · omega

end

/-- A number as a double holds it. -/
def Holds (u : UnpackedFloat) (q : ℚ) : Prop :=
  ∃ negative m e, ofUnpacked u = finite negative m e ∧ Canonical m e ∧ e ≤ greatestExponent ∧
    (if negative then -1 else 1) * (m * 2 ^ e) = q

/-- A double is a number. -/
def IsNumber (x : Float) (q : ℚ) : Prop := (ofFloat x).number? = some (.finite q)

/-- A double is a number exactly if what it is unpacked to holds that number. -/
theorem isNumber_iff_holds {x : Float} {q : ℚ} : IsNumber x q ↔ Holds x.toModel.unpack q := by
  unfold IsNumber
  constructor
  · intro hnumber
    cases hx : ofFloat x with
    | nan | infinite => rw [hx] at hnumber; cases hnumber
    | finite negative m e =>
      rw [hx] at hnumber
      cases hnumber
      exact ⟨negative, m, e, ofFloat_eq_ofUnpacked x ▸ hx, canonical_ofFloat hx, le_greatestExponent hx, rfl⟩
  · rintro ⟨negative, m, e, hx, -, -, rfl⟩
    rw [ofFloat_eq_ofUnpacked, hx]
    rfl

/-- The numbers from here on are too great for a double, even where they are rounded. -/
def overflow : ℚ := (2 ^ 53 - 1 / 2) * 2 ^ greatestExponent

/-- A number is rounded to a double, unless it is too great. -/
theorem Rounded.holds {sign : Sign} {q : ℚ} {u : UnpackedFloat} {n f : ℕ} {g : ℤ} (h : Rounded sign q u n f g)
    (hq : 0 < q) (hsmall : q < overflow) : ∃ r, RoundsTo q r ∧ Holds u (if sign == .negative then -r else r) := by
  have hplace : lastPlace q ≤ greatestExponent := by
    have hlt : q < ((2 : ℕ) : ℚ) ^ (1024 : ℤ) := by
      refine hsmall.trans ?_
      rw [overflow, greatestExponent, Nat.cast_ofNat, show (1024 : ℤ) = 53 + 971 by rfl, zpow_add₀ two_ne_zero]
      gcongr
      norm_num
    have hlog := (Int.lt_zpow_iff_log_lt one_lt_two hq).1 hlt
    rw [lastPlace, abs_of_pos hq]
    unfold fractionBits leastExponent greatestExponent
    omega
  have hgreatest : g ≤ greatestExponent := by
    obtain ⟨-, rfl⟩ | ⟨rfl, rfl⟩ := h.place
    · exact hplace
    · refine Int.add_one_le_iff.2 (hplace.lt_of_ne fun heq => ?_)
      -- with the greatest last place, a number this small is not rounded to one more digit
      have hnarrow : (2 ^ 53 : ℕ) ≤ (2 ^ 53 - 1 : ℤ) := h.nearest.le_of_le (by
        rw [heq, div_lt_iff₀ (by positivity)]
        refine hsmall.trans_eq ?_
        rw [overflow]
        norm_num)
      omega
  refine ⟨_, ⟨n, h.nearest, rfl⟩, sign == .negative, f, g, h.unpacked, h.canonical, hgreatest, ?_⟩
  rw [h.size]
  cases sign == .negative <;> simp

namespace Holds

variable {u v : UnpackedFloat} {p q r : ℚ}

/-- What holds a number is unpacked as it was packed. -/
theorem unpack_pack (h : Holds u q) : (Float.Model.pack u).unpack = u := by
  obtain ⟨negative, m, e, hu, hcanonical, hgreatest, -⟩ := h
  cases u with
  | zero sign => cases sign <;> rfl
  | finite sign mantissa exponent hpos =>
    cases hu
    exact unpack_pack_finite sign hpos hcanonical hgreatest
  | infinity | notANumber => cases hu

/-- The opposite of what holds a number holds the opposite number. -/
theorem neg (h : Holds u q) : Holds u.neg (-q) := by
  obtain ⟨negative, m, e, hu, hcanonical, hgreatest, rfl⟩ := h
  refine ⟨!negative, m, e, ?_, hcanonical, hgreatest, by cases negative <;> simp⟩
  cases u with
  | zero sign | finite sign =>
    cases hu
    cases sign <;> rfl
  | infinity | notANumber => cases hu

/-- What a double holds is its own rounding. -/
theorem roundsTo (h : Holds u q) : RoundsTo q q := by
  obtain ⟨negative, m, e, -, hcanonical, -, rfl⟩ := h
  have hsize : RoundsTo (m * 2 ^ e) (m * 2 ^ e) := by
    obtain rfl | hm := m.eq_zero_or_pos
    · exact ⟨0, by simpa using Nearest.self 0, by simp⟩
    · refine ⟨m, ?_, ?_⟩ <;> rw [hcanonical.lastPlace_eq hm]
      · rw [mul_div_cancel_right₀ _ (by positivity)]
        exact Nearest.self m
      · rfl
  cases negative with
  | false => rwa [if_neg Bool.false_ne_true, one_mul]
  | true =>
    rw [if_pos rfl, neg_one_mul]
    exact hsize.neg

theorem zero (sign : Sign) : Holds (.zero sign) 0 :=
  ⟨_, 0, leastExponent, rfl, ⟨le_rfl, by decide, .inr rfl⟩, by decide, by simp⟩

/-- A zero holds no number but zero. -/
theorem eq_zero {sign : Sign} (h : Holds (.zero sign) q) : q = 0 := by
  obtain ⟨negative, m, e, hu, -, -, rfl⟩ := h
  cases hu
  simp

/-- A sign, a mantissa and an exponent, as exact arithmetic gives them, are rounded. -/
theorem normalize (M e : ℤ) (sign : Sign) (hsmall : |(M * 2 ^ e : ℚ)| < overflow) :
    ∃ r, RoundsTo (M * 2 ^ e) r ∧ Holds (UnpackedFloat.normalize Format.binary64 M e sign) r := by
  have hpower : (0 : ℚ) < 2 ^ e := by positivity
  unfold UnpackedFloat.normalize
  obtain hneg | rfl | hpos := lt_trichotomy M 0
  · obtain ⟨m, hm, rfl⟩ : ∃ m : ℕ, 0 < m ∧ M = -m := ⟨M.natAbs, by omega, by omega⟩
    rw [Int.compare_eq_lt.2 hneg]
    dsimp only
    rw [neg_neg, Int.toNat_natCast]
    obtain ⟨n, f, g, hrounded⟩ := round_rounded .negative hm e
    have hq : (0 : ℚ) < m * 2 ^ e := by positivity
    rw [Int.cast_neg, neg_mul, abs_neg, Int.cast_natCast, abs_of_pos hq] at hsmall
    obtain ⟨r, hr, hholds⟩ := hrounded.holds hq hsmall
    refine ⟨-r, ?_, hholds⟩
    rw [Int.cast_neg, neg_mul]
    exact hr.neg
  · refine ⟨0, ?_, zero sign⟩
    rw [Int.cast_zero, zero_mul]
    exact (zero sign).roundsTo
  · obtain ⟨m, rfl⟩ := Int.eq_ofNat_of_zero_le hpos.le
    have hm : 0 < m := Int.natCast_pos.1 hpos
    rw [Int.compare_eq_gt.2 hpos]
    dsimp only
    rw [Int.toNat_natCast]
    obtain ⟨n, f, g, hrounded⟩ := round_rounded .positive hm e
    have hq : (0 : ℚ) < m * 2 ^ e := by positivity
    rw [Int.cast_natCast, abs_of_pos hq] at hsmall
    exact hrounded.holds hq hsmall

theorem apply_cast (sign : Sign) (m : ℕ) : (sign.apply m : ℚ) = (if sign == .negative then -1 else 1) * m := by
  cases sign
  · change ((-m : ℤ) : ℚ) = (-1) * m
    push_cast
    ring
  · change ((m : ℤ) : ℚ) = 1 * m
    push_cast
    ring

/-- The sum of two unpacked doubles holds the exact sum rounded, provided that does not overflow. -/
theorem add (hu : Holds u p) (hv : Holds v q) (hsmall : |p + q| < overflow) :
    ∃ r, RoundsTo (p + q) r ∧ Holds (UnpackedFloat.add Format.binary64 u v) r := by
  cases u with
  | zero sign =>
    cases hu.eq_zero
    rw [zero_add]
    cases v with
    | zero sign' =>
      cases hv.eq_zero
      refine ⟨0, hv.roundsTo, ?_⟩
      change Holds (if sign == sign' then .zero sign else .zero .positive) 0
      split
      · exact zero _
      · exact zero _
    | finite => exact ⟨q, hv.roundsTo, hv⟩
    | infinity | notANumber =>
      obtain ⟨_, _, _, hv, -⟩ := hv
      cases hv
  | finite sign m e =>
    cases v with
    | zero sign' =>
      cases hv.eq_zero
      rw [add_zero]
      exact ⟨p, hu.roundsTo, hu⟩
    | finite sign' m' e' =>
      obtain ⟨_, _, _, hu, -, -, rfl⟩ := hu
      obtain ⟨_, _, _, hv, -, -, rfl⟩ := hv
      cases hu
      cases hv
      have hsum : ((sign.apply (decreaseExponent m e (min e e')).1 +
          sign'.apply (decreaseExponent m' e' (min e e')).1 : ℤ) * 2 ^ min e e' : ℚ) =
            (if sign == .negative then -1 else 1) * (m * 2 ^ e) +
            (if sign' == .negative then -1 else 1) * (m' * 2 ^ e') := by
        rw [← decreaseExponent_size_of_le m (min_le_left e e'), ← decreaseExponent_size_of_le m' (min_le_right e e'),
          Int.cast_add, apply_cast, apply_cast]
        ring
      rw [← hsum] at hsmall ⊢
      exact normalize _ _ .positive hsmall
    | infinity | notANumber =>
      obtain ⟨_, _, _, hv, -⟩ := hv
      cases hv
  | infinity | notANumber =>
    obtain ⟨_, _, _, hu, -⟩ := hu
    cases hu

/-- A difference of unpacked doubles is the sum with the opposite. -/
theorem sub_eq_add_neg (u v : UnpackedFloat) :
    UnpackedFloat.sub Format.binary64 u v = UnpackedFloat.add Format.binary64 u v.neg := by
  cases u <;> cases v
  case finite.finite sign m e hm sign' m' e' hm' =>
    have hopposite (k : ℤ) : (-sign').apply k = -sign'.apply k := by
      cases sign'
      · exact (neg_neg k).symm
      · rfl
    change UnpackedFloat.normalize _ _ _ _ = UnpackedFloat.normalize _ (_ + (-sign').apply _) _ _
    rw [hopposite, ← Int.sub_eq_add_neg]
  all_goals rfl

end Holds

/-- What is held is at most the greatest double. -/
theorem Holds.abs_le {u : UnpackedFloat} {q : ℚ} (h : Holds u q) : |q| ≤ (2 ^ 53 - 1) * 2 ^ greatestExponent := by
  obtain ⟨negative, m, e, -, hcanonical, hgreatest, rfl⟩ := h
  have hm : (m : ℚ) + 1 ≤ 2 ^ 53 := by exact_mod_cast hcanonical.small
  have hsize : |(m * 2 ^ e : ℚ)| ≤ (2 ^ 53 - 1) * 2 ^ greatestExponent := by
    rw [abs_of_nonneg (by positivity)]
    exact mul_le_mul (by linarith) (zpow_le_zpow_right₀ one_le_two hgreatest) (by positivity) (by norm_num)
  cases negative <;> simpa using hsize

namespace IsNumber

variable {x y : Float} {p q : ℚ}

/-- A double is at most one number. -/
theorem unique (hp : IsNumber x p) (hq : IsNumber x q) : p = q :=
  Number.finite.inj (Option.some.inj (hp.symm.trans hq))

/-- A finite double is the number that its sign, significand and exponent tell. -/
theorem of_binary {negative : Bool} {m : ℕ} {e : ℤ} (h : ofFloat x = finite negative m e) :
    IsNumber x ((if negative then -1 else 1) * (m * 2 ^ e)) := by rw [IsNumber, h, number?]

/-- What holds a number is packed into a double that is that number. -/
theorem of_pack {u : UnpackedFloat} (h : Holds u q) : IsNumber ⟨Float.Model.pack u⟩ q := by
  refine isNumber_iff_holds.2 ?_
  change Holds (Float.Model.pack u).unpack q
  rw [h.unpack_pack]
  exact h

/-- The sum of two doubles is that of their numbers, rounded. -/
theorem add (hx : IsNumber x p) (hy : IsNumber y q) (hsmall : |p + q| < overflow) :
    ∃ r, RoundsTo (p + q) r ∧ IsNumber (x + y) r := by
  obtain ⟨r, hr, hsum⟩ := (isNumber_iff_holds.1 hx).add (isNumber_iff_holds.1 hy) hsmall
  exact ⟨r, hr, of_pack hsum⟩

/-- The difference of two doubles is the exact difference rounded, provided that does not overflow. -/
theorem sub (hx : IsNumber x p) (hy : IsNumber y q) (hsmall : |p - q| < overflow) :
    ∃ r, RoundsTo (p - q) r ∧ IsNumber (x - y) r := by
  rw [sub_eq_add_neg] at hsmall ⊢
  obtain ⟨r, hr, hsum⟩ := (isNumber_iff_holds.1 hx).add (isNumber_iff_holds.1 hy).neg hsmall
  rw [← Holds.sub_eq_add_neg] at hsum
  exact ⟨r, hr, of_pack hsum⟩

end IsNumber

end SteppedLogo.Decimal.Binary
