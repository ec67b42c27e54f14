import Mathlib.Algebra.Order.Field.Power
import ValueStorage.Number.Shortest
import ValueStorage.Proofs.ExactValue

/-! Rounding to binary numbers. A rational number is rounded to the nearest finite one, and what is
rounded to a given number is an interval around it: its ends are half way to the next number below
and the next one above, which on one side of a power of two are nearer than on the other. -/

namespace ValueStorage.Binary64

/-- The number `y` is rounded to `x`: nothing finite is nearer to it, and `x` has the even significand
if something else is equally near. Numbers beyond the largest finite one are rounded to it as long as
they are nearer to it than to `2 ^ 1024`. -/
structure RoundsTo (y : ℚ) (x : Binary64) : Prop where
  finite : x.isFinite
  bounded : |y| < 2 ^ 1024 - 2 ^ 970
  nearest (z : Binary64) (hz : z.isFinite) : |y - x.value| ≤ |y - z.value|
  even (z : Binary64) (hz : z.isFinite) (hne : z.value ≠ x.value)
    (h : |y - z.value| = |y - x.value|) : Even x.significand

/-! The fields of a number. -/

section Fields

variable {x z : Binary64}

theorem fraction_lt (x : Binary64) : x.fraction < leadingOne := Nat.mod_lt _ (by decide)

theorem significand_lt (x : Binary64) : x.significand < 2 * leadingOne := by
  have hf := x.fraction_lt
  unfold significand
  split <;> omega

theorem leadingOne_le (h : 0 < x.level) : leadingOne ≤ x.significand := by
  unfold level at h
  unfold significand
  split <;> omega

theorem level_le (h : x.isFinite) : x.level ≤ 2045 := by
  have he : x.exponentField < 2048 := Nat.mod_lt _ (by decide)
  have hne : x.exponentField ≠ 2047 := by simpa [isFinite] using h
  unfold level
  omega

def Narrow (x : Binary64) : Prop := x.fraction = 0 ∧ 1 < x.exponentField

instance (x : Binary64) : Decidable x.Narrow := inferInstanceAs (Decidable (_ ∧ _))

theorem narrow_iff : x.Narrow ↔ x.significand = leadingOne ∧ 0 < x.level := by
  have hf := x.fraction_lt
  unfold Narrow significand level
  split <;> omega

theorem exists_fields (negative : Bool) {e f : Nat} (he : e < 2048) (hf : f < leadingOne) :
    ∃ x : Binary64, x.isNegative = negative ∧ x.exponentField = e ∧ x.fraction = f := by
  obtain ⟨n, hn⟩ : ∃ n, n = (if negative then 2 ^ 63 else 0) + e * leadingOne + f := ⟨_, rfl⟩
  have hlt : n < 18446744073709551616 := by
    unfold leadingOne at *
    split at hn <;> omega
  have hbits : (UInt64.ofNat n).toNat = n := UInt64.toNat_ofNat_of_lt' hlt
  refine ⟨⟨UInt64.ofNat n⟩, ?_, ?_, ?_⟩
  · rw [isNegative, hbits]
    unfold leadingOne at *
    cases negative <;> simp at hn ⊢ <;> omega
  · rw [exponentField, hbits]
    unfold leadingOne at *
    split at hn <;> omega
  · rw [fraction, hbits]
    unfold leadingOne at *
    split at hn <;> omega

theorem exists_number (negative : Bool) {level significand : Nat} (hl : level ≤ 2045)
    (hs : significand < 2 * leadingOne) (hn : 0 < level → leadingOne ≤ significand) :
    ∃ x : Binary64, x.isFinite ∧ x.isNegative = negative ∧ x.significand = significand ∧
      x.level = level := by
  rcases Nat.lt_or_ge significand leadingOne with hlt | hge
  · obtain ⟨x, hneg, he, hf⟩ := exists_fields negative (show 0 < 2048 by decide) hlt
    refine ⟨x, by simp [isFinite, he], hneg, ?_, ?_⟩
    · rw [Binary64.significand, if_pos he, hf]
    · unfold Binary64.level
      omega
  · obtain ⟨x, hneg, he, hf⟩ := exists_fields negative (show level + 1 < 2048 by omega)
      (show significand - leadingOne < leadingOne by omega)
    refine ⟨x, by simp [isFinite, he]; omega, hneg, ?_, ?_⟩
    · rw [Binary64.significand, if_neg (by omega), hf]
      omega
    · unfold Binary64.level
      omega

end Fields

/-! The next numbers. -/

section Neighbours

variable {x z : Binary64}

def ulp (x : Binary64) : ℚ := 2 ^ x.level * 2 ^ (-1074 : ℤ)

theorem ulp_pos (x : Binary64) : 0 < x.ulp := by
  unfold ulp
  positivity

theorem abs_value_eq (x : Binary64) : |x.value| = x.significand * x.ulp := by
  rw [abs_value, ulp, sub_eq_add_neg, zpow_add₀ two_ne_zero, zpow_natCast]

def above (x : Binary64) : ℚ := (x.significand + 1) * x.ulp

def below (x : Binary64) : ℚ := (x.significand - if x.Narrow then 1 / 2 else 1) * x.ulp

theorem abs_value_lt_iff :
    |x.value| < |z.value| ↔ x.significand * 2 ^ x.level < z.significand * 2 ^ z.level := by
  have hpos : (0 : ℚ) < 2 ^ (-1074 : ℤ) := by positivity
  rw [abs_value_eq, abs_value_eq, ulp, ulp, ← mul_assoc, ← mul_assoc,
    mul_lt_mul_iff_of_pos_right hpos]
  exact_mod_cast Iff.rfl

theorem scaled_le_of_level_lt (h : z.level < x.level) :
    2 * (z.significand * 2 ^ z.level) ≤ (2 * leadingOne - 1) * 2 ^ x.level := by
  obtain ⟨d, hd⟩ := Nat.exists_eq_add_of_lt h
  have hs : z.significand ≤ 2 * leadingOne - 1 := by
    have hlt := z.significand_lt
    omega
  calc 2 * (z.significand * 2 ^ z.level) = z.significand * (2 * 2 ^ z.level) := by ring
    _ ≤ (2 * leadingOne - 1) * 2 ^ x.level := by
      apply Nat.mul_le_mul hs
      rw [hd, pow_succ, pow_add]
      have hone : 1 ≤ 2 ^ d := Nat.one_le_two_pow
      nlinarith [Nat.one_le_two_pow (n := z.level)]

theorem scaled_lt_of_level_lt (h : z.level < x.level) :
    z.significand * 2 ^ z.level < x.significand * 2 ^ x.level := by
  have hle := scaled_le_of_level_lt h
  have hx : leadingOne ≤ x.significand := leadingOne_le (by omega)
  have hlt : 2 * leadingOne - 1 < 2 * x.significand :=
    (Nat.sub_one_lt (by decide)).trans_le (Nat.mul_le_mul_left 2 hx)
  have hmul : (2 * leadingOne - 1) * 2 ^ x.level < 2 * x.significand * 2 ^ x.level :=
    Nat.mul_lt_mul_of_pos_right hlt (Nat.two_pow_pos _)
  rw [Nat.mul_assoc] at hmul
  omega

theorem succ_scaled_le (h : x.significand * 2 ^ x.level < z.significand * 2 ^ z.level) :
    (x.significand + 1) * 2 ^ x.level ≤ z.significand * 2 ^ z.level := by
  rcases Nat.lt_or_ge z.level x.level with hlt | hge
  · exact absurd h (scaled_lt_of_level_lt hlt).asymm
  · obtain ⟨d, hd⟩ := Nat.exists_eq_add_of_le hge
    have hz : z.significand * 2 ^ z.level = z.significand * 2 ^ d * 2 ^ x.level := by
      rw [hd, pow_add]
      ring
    rw [hz] at h ⊢
    exact Nat.mul_le_mul_right _ (Nat.lt_of_mul_lt_mul_right h)

theorem above_le (h : |x.value| < |z.value|) : x.above ≤ |z.value| := by
  have hle := succ_scaled_le (abs_value_lt_iff.1 h)
  have hpos : (0 : ℚ) < 2 ^ (-1074 : ℤ) := by positivity
  rw [above, abs_value_eq, ulp, ulp, ← mul_assoc, ← mul_assoc, mul_le_mul_iff_of_pos_right hpos]
  exact_mod_cast hle

theorem le_below (h : |z.value| < |x.value|) : |z.value| ≤ x.below := by
  have hlt := abs_value_lt_iff.1 h
  have hpos : (0 : ℚ) < 2 ^ (-1074 : ℤ) := by positivity
  rw [below, abs_value_eq, ulp, ulp, ← mul_assoc, ← mul_assoc, mul_le_mul_iff_of_pos_right hpos]
  rcases Nat.lt_or_ge z.level x.level with hl | hge
  · have hle : 2 * ((z.significand : ℚ) * 2 ^ z.level) ≤ (2 * leadingOne - 1) * 2 ^ x.level := by
      have hcast := scaled_le_of_level_lt hl
      have hone : 1 ≤ 2 * leadingOne := by decide
      zify [hone] at hcast
      exact_mod_cast hcast
    have hx : leadingOne ≤ x.significand := leadingOne_le (by omega)
    have hpow : (0 : ℚ) < 2 ^ x.level := by positivity
    split_ifs with hn
    · have hs : (leadingOne : ℚ) ≤ x.significand := by exact_mod_cast hx
      nlinarith
    · have hs : (leadingOne : ℚ) + 1 ≤ x.significand := by
        have hne : x.significand ≠ leadingOne := fun he => hn (narrow_iff.2 ⟨he, by omega⟩)
        exact_mod_cast (show leadingOne + 1 ≤ x.significand by omega)
      nlinarith
  -- on the same grid there is a whole unit between the two
  · obtain ⟨d, hd⟩ := Nat.exists_eq_add_of_le hge
    have hz : z.significand * 2 ^ z.level = z.significand * 2 ^ d * 2 ^ x.level := by
      rw [hd, pow_add]
      ring
    rw [hz] at hlt
    have hlt' := Nat.lt_of_mul_lt_mul_right hlt
    have hle : ((z.significand * 2 ^ d : ℕ) : ℚ) + 1 ≤ x.significand := by exact_mod_cast hlt'
    have hgap : (if x.Narrow then (1 : ℚ) / 2 else 1) ≤ 1 := by
      split_ifs <;> norm_num
    have hcast : (z.significand : ℚ) * 2 ^ z.level = (z.significand * 2 ^ d : ℕ) * 2 ^ x.level := by
      exact_mod_cast hz
    rw [hcast]
    apply mul_le_mul_of_nonneg_right _ (by positivity)
    linarith

theorem below_nonneg (h : x.significand ≠ 0) : 0 ≤ x.below := by
  have hs : (1 : ℚ) ≤ x.significand := by exact_mod_cast Nat.one_le_iff_ne_zero.2 h
  apply mul_nonneg _ x.ulp_pos.le
  split_ifs <;> linarith

theorem below_lt (x : Binary64) : x.below < |x.value| := by
  rw [abs_value_eq, below]
  apply mul_lt_mul_of_pos_right _ x.ulp_pos
  split_ifs <;> linarith

theorem lt_above (x : Binary64) : |x.value| < x.above := by
  rw [abs_value_eq, above]
  exact mul_lt_mul_of_pos_right (lt_add_one _) x.ulp_pos

def Largest (x : Binary64) : Prop := x.significand = 2 * leadingOne - 1 ∧ x.level = 2045

theorem exists_above (hf : x.isFinite) (hl : ¬ x.Largest) :
    ∃ z : Binary64, z.isFinite ∧ z.isNegative = x.isNegative ∧ |z.value| = x.above := by
  have hs := x.significand_lt
  have hlevel := level_le hf
  rcases Nat.lt_or_ge (x.significand + 1) (2 * leadingOne) with hlt | hge
  · obtain ⟨z, hz, hneg, hsz, hlz⟩ := exists_number x.isNegative hlevel hlt
      fun h => Nat.le_succ_of_le (leadingOne_le h)
    refine ⟨z, hz, hneg, ?_⟩
    rw [abs_value_eq, above, ulp, ulp, hsz, hlz, Nat.cast_succ]
  -- the significand starts again, one level higher
  · have htop : x.significand = 2 * leadingOne - 1 := by omega
    have hnext : x.level + 1 ≤ 2045 := by
      have hne : x.level ≠ 2045 := fun he => hl ⟨htop, he⟩
      omega
    obtain ⟨z, hz, hneg, hsz, hlz⟩ := exists_number x.isNegative hnext
      (show leadingOne < 2 * leadingOne by decide) fun _ => Nat.le_refl _
    refine ⟨z, hz, hneg, ?_⟩
    have hsum : (x.significand : ℚ) + 1 = 2 * leadingOne := by
      exact_mod_cast (show x.significand + 1 = 2 * leadingOne by omega)
    rw [abs_value_eq, above, ulp, ulp, hsz, hlz, hsum, pow_succ]
    ring

theorem exists_below (hf : x.isFinite) (h0 : x.significand ≠ 0) :
    ∃ z : Binary64, z.isFinite ∧ z.isNegative = x.isNegative ∧ |z.value| = x.below := by
  have hs := x.significand_lt
  have hlevel := level_le hf
  by_cases hn : x.Narrow
  · obtain ⟨hone, hpos⟩ := narrow_iff.1 hn
    obtain ⟨z, hz, hneg, hsz, hlz⟩ := exists_number x.isNegative (show x.level - 1 ≤ 2045 by omega)
      (show 2 * leadingOne - 1 < 2 * leadingOne by decide) fun _ => by decide
    refine ⟨z, hz, hneg, ?_⟩
    have hcast : ((2 * leadingOne - 1 : ℕ) : ℚ) = 2 * leadingOne - 1 := by
      rw [Nat.cast_sub (by decide)]
      norm_num
    have hpow : (2 : ℚ) ^ x.level = 2 ^ (x.level - 1) * 2 := by
      rw [← pow_succ, Nat.sub_add_cancel hpos]
    rw [abs_value_eq, below, if_pos hn, ulp, ulp, hsz, hlz, hcast, hone, hpow]
    ring
  · have hprev : 0 < x.level → leadingOne ≤ x.significand - 1 := by
      intro hpos
      have hle := leadingOne_le hpos
      have hne : x.significand ≠ leadingOne := fun he => hn (narrow_iff.2 ⟨he, hpos⟩)
      omega
    obtain ⟨z, hz, hneg, hsz, hlz⟩ := exists_number x.isNegative hlevel
      (show x.significand - 1 < 2 * leadingOne by omega) hprev
    refine ⟨z, hz, hneg, ?_⟩
    rw [abs_value_eq, below, if_neg hn, ulp, ulp, hsz, hlz,
      Nat.cast_pred (Nat.pos_of_ne_zero h0)]

end Neighbours

/-! What is rounded to a number. -/

section Interval

variable {x : Binary64} {w : ℚ}

/-- Whether the magnitude `w` lies in the interval around that of `x`. The ends belong to it if the
significand is even. -/
def ReadsBack (x : Binary64) (w : ℚ) : Prop :=
  if Even x.significand then
    (x.below + |x.value|) / 2 ≤ w ∧ w ≤ (|x.value| + x.above) / 2
  else
    (x.below + |x.value|) / 2 < w ∧ w < (|x.value| + x.above) / 2

theorem ReadsBack.bounds (h : x.ReadsBack w) :
    (x.below + |x.value|) / 2 ≤ w ∧ w ≤ (|x.value| + x.above) / 2 := by
  unfold ReadsBack at h
  split_ifs at h
  · exact h
  · exact ⟨h.1.le, h.2.le⟩

theorem ReadsBack.even_of_end (h : x.ReadsBack w)
    (he : w = (x.below + |x.value|) / 2 ∨ w = (|x.value| + x.above) / 2) : Even x.significand := by
  unfold ReadsBack at h
  split_ifs at h with heven
  · exact heven
  · rcases he with he | he <;> linarith [h.1, h.2]

theorem ReadsBack.pos (h0 : x.significand ≠ 0) (h : x.ReadsBack w) : 0 < w := by
  have hb := below_nonneg h0
  have hlt := x.below_lt
  have hw := h.bounds.1
  linarith

theorem ReadsBack.between {a b : ℚ} (ha : x.ReadsBack a) (hb : x.ReadsBack b) (haw : a ≤ w)
    (hwb : w ≤ b) : x.ReadsBack w := by
  unfold ReadsBack at *
  split_ifs at * with heven
  · exact ⟨ha.1.trans haw, hwb.trans hb.2⟩
  · exact ⟨ha.1.trans_le haw, hwb.trans_lt hb.2⟩

theorem readsBack_abs_value (x : Binary64) : x.ReadsBack |x.value| := by
  have hb := x.below_lt
  have ha := x.lt_above
  unfold ReadsBack
  split_ifs <;> constructor <;> linarith

theorem abs_sub_le_abs_sub_iff {a b : ℚ} (h : a < b) : |w - b| ≤ |w - a| ↔ (a + b) / 2 ≤ w := by
  rcases abs_cases (w - b) with ⟨hb, _⟩ | ⟨hb, _⟩ <;>
    rcases abs_cases (w - a) with ⟨ha, _⟩ | ⟨ha, _⟩ <;>
    rw [ha, hb] <;> constructor <;> intro _ <;> linarith

theorem abs_sub_le_abs_sub_iff' {a b : ℚ} (h : a < b) : |w - a| ≤ |w - b| ↔ w ≤ (a + b) / 2 := by
  rcases abs_cases (w - b) with ⟨hb, _⟩ | ⟨hb, _⟩ <;>
    rcases abs_cases (w - a) with ⟨ha, _⟩ | ⟨ha, _⟩ <;>
    rw [ha, hb] <;> constructor <;> intro _ <;> linarith

def sign (x : Binary64) : ℚ := if x.isNegative then -1 else 1

theorem abs_sign (x : Binary64) : |x.sign| = 1 := by
  unfold sign
  split <;> simp

theorem sign_mul_sign (x : Binary64) : x.sign * x.sign = 1 := by
  unfold sign
  split <;> norm_num

theorem sign_mul_sign_mul (x : Binary64) (y : ℚ) : x.sign * (x.sign * y) = y := by
  rw [← mul_assoc, sign_mul_sign, one_mul]

theorem value_eq (x : Binary64) : x.value = x.sign * |x.value| := by
  have hpos (k : ℤ) : (0 : ℚ) ≤ 2 ^ k := by positivity
  obtain ⟨magnitude, hm, hv⟩ : ∃ magnitude : ℚ, 0 ≤ magnitude ∧ x.value = x.sign * magnitude := by
    refine ⟨_, ?_, rfl⟩
    split
    · exact mul_nonneg (by positivity) (hpos _)
    · exact mul_nonneg (by positivity) (hpos _)
  rw [hv, abs_mul, abs_sign, one_mul, abs_of_nonneg hm]

theorem abs_sign_mul_sub (x : Binary64) (a b : ℚ) : |x.sign * a - x.sign * b| = |a - b| := by
  rw [← mul_sub, abs_mul, abs_sign, one_mul]

theorem abs_sub_value {z : Binary64} (h : z.isNegative = x.isNegative) (w : ℚ) :
    |x.sign * w - z.value| = |w - (|z.value|)| := by
  have hs : z.sign = x.sign := by
    rw [sign, sign, h]
  rw [z.value_eq, hs, abs_sign_mul_sub, ← hs, ← z.value_eq]

theorem half_above_eq (x : Binary64) :
    (|x.value| + x.above) / 2 = (2 * x.significand + 1) / 2 * x.ulp := by
  rw [abs_value_eq, above]
  ring

theorem overflow_eq :
    (2 : ℚ) ^ 1024 - 2 ^ 970 = (4 * leadingOne - 1) / 2 * (2 ^ 2045 * 2 ^ (-1074 : ℤ)) := by
  have hone : (leadingOne : ℚ) = 2 ^ 52 := by norm_num [leadingOne]
  have hulp : (2 : ℚ) ^ 2045 * 2 ^ (-1074 : ℤ) = 2 * 2 ^ 970 := by
    rw [← zpow_natCast, ← zpow_add₀ two_ne_zero, ← pow_succ', ← zpow_natCast]
    rfl
  have hbig : (2 : ℚ) ^ 1024 = 2 ^ 54 * 2 ^ 970 := by rw [← pow_add]
  rw [hulp, hbig, hone]
  generalize (2 : ℚ) ^ 970 = unit
  ring

theorem half_above_of_largest (h : x.Largest) :
    (|x.value| + x.above) / 2 = 2 ^ 1024 - 2 ^ 970 := by
  have hs : (x.significand : ℚ) = 2 * leadingOne - 1 := by
    rw [h.1, Nat.cast_sub (by decide)]
    norm_num
  rw [half_above_eq, overflow_eq, ulp, h.2, hs]
  congr 1
  ring

theorem half_above_le (hf : x.isFinite) :
    (|x.value| + x.above) / 2 ≤ 2 ^ 1024 - 2 ^ 970 := by
  have hs : (x.significand : ℚ) + 1 ≤ 2 * leadingOne := by exact_mod_cast x.significand_lt
  have hulp : x.ulp ≤ 2 ^ 2045 * 2 ^ (-1074 : ℤ) :=
    mul_le_mul_of_nonneg_right (pow_le_pow_right₀ one_le_two (level_le hf)) (by positivity)
  rw [half_above_eq, overflow_eq]
  exact mul_le_mul (by linarith) hulp x.ulp_pos.le (by linarith)

theorem ReadsBack.lt_overflow (hf : x.isFinite) (h : x.ReadsBack w) : w < 2 ^ 1024 - 2 ^ 970 := by
  -- the largest number has an odd significand, so the end of its interval does not read back
  refine lt_of_le_of_ne (h.bounds.2.trans (half_above_le hf)) fun he => ?_
  have hend : w = (|x.value| + x.above) / 2 :=
    le_antisymm h.bounds.2 (he ▸ half_above_le hf)
  obtain ⟨k, hk⟩ : Even x.significand := h.even_of_end (.inr hend)
  have hs : (x.significand : ℚ) + 2 ≤ 2 * leadingOne := by
    have hlt := x.significand_lt
    exact_mod_cast (show x.significand + 2 ≤ 2 * leadingOne by omega)
  have hulp : x.ulp ≤ 2 ^ 2045 * 2 ^ (-1074 : ℤ) :=
    mul_le_mul_of_nonneg_right (pow_le_pow_right₀ one_le_two (level_le hf)) (by positivity)
  have hlt : (2 * x.significand + 1) / 2 * x.ulp <
      (4 * leadingOne - 1) / 2 * (2 ^ 2045 * 2 ^ (-1074 : ℤ)) :=
    calc (2 * x.significand + 1) / 2 * x.ulp < (4 * leadingOne - 1) / 2 * x.ulp :=
          mul_lt_mul_of_pos_right (by linarith) x.ulp_pos
      _ ≤ _ := mul_le_mul_of_nonneg_left hulp (by linarith)
  rw [← half_above_eq, ← overflow_eq, ← hend, he] at hlt
  exact absurd hlt (lt_irrefl _)

theorem RoundsTo.readsBack (h0 : x.significand ≠ 0) (h : RoundsTo (x.sign * w) x) :
    x.ReadsBack w := by
  have hx : |x.sign * w - x.value| = |w - (|x.value|)| := abs_sub_value rfl w
  obtain ⟨z, hz, hneg, hbelow⟩ := exists_below h.finite h0
  have hlow : (x.below + |x.value|) / 2 ≤ w := by
    have hn := h.nearest z hz
    rw [hx, abs_sub_value hneg, hbelow] at hn
    exact (abs_sub_le_abs_sub_iff x.below_lt).1 hn
  have hlow_even : w = (x.below + |x.value|) / 2 → Even x.significand := by
    intro he
    refine h.even z hz ?_ ?_
    · intro hv
      rw [hv] at hbelow
      exact x.below_lt.ne' hbelow
    · rw [hx, abs_sub_value hneg, hbelow]
      exact le_antisymm ((abs_sub_le_abs_sub_iff' x.below_lt).2 he.le)
        ((abs_sub_le_abs_sub_iff x.below_lt).2 he.ge)
  have hhigh : w ≤ (|x.value| + x.above) / 2 ∧
      (w = (|x.value| + x.above) / 2 → Even x.significand) := by
    by_cases hl : x.Largest
    -- here the bound is that of infinity, and it is not reached
    · have hb := h.bounded
      rw [abs_mul, abs_sign, one_mul, ← half_above_of_largest hl] at hb
      have hlt := (le_abs_self w).trans_lt hb
      exact ⟨hlt.le, fun he => absurd he hlt.ne⟩
    · obtain ⟨z, hz, hneg, habove⟩ := exists_above h.finite hl
      have hn := h.nearest z hz
      rw [hx, abs_sub_value hneg, habove] at hn
      refine ⟨(abs_sub_le_abs_sub_iff' x.lt_above).1 hn, fun he => h.even z hz ?_ ?_⟩
      · intro hv
        rw [hv] at habove
        exact x.lt_above.ne habove
      · rw [hx, abs_sub_value hneg, habove]
        exact le_antisymm ((abs_sub_le_abs_sub_iff x.lt_above).2 he.ge)
          ((abs_sub_le_abs_sub_iff' x.lt_above).2 he.le)
  unfold ReadsBack
  split_ifs with heven
  · exact ⟨hlow, hhigh.1⟩
  · exact ⟨lt_of_le_of_ne hlow fun he => heven (hlow_even he.symm),
      lt_of_le_of_ne hhigh.1 fun he => heven (hhigh.2 he)⟩

theorem RoundsTo.readsBack_sign_mul {y : ℚ} (h0 : x.significand ≠ 0) (h : RoundsTo y x) :
    x.ReadsBack (x.sign * y) :=
  RoundsTo.readsBack h0 (by rwa [sign_mul_sign_mul])

theorem exists_apart (h0 : x.significand ≠ 0) (z : Binary64) (w : ℚ) :
    ∃ t, |x.sign * w - z.value| = |w - t| ∧
      (t ≤ x.below ∨ z.value = x.value ∧ t = |x.value| ∨ x.above ≤ t) := by
  obtain ⟨t, ht⟩ : ∃ t, z.value = x.sign * t :=
    ⟨x.sign * z.value, (x.sign_mul_sign_mul z.value).symm⟩
  have habs : |z.value| = |t| := by rw [ht, abs_mul, abs_sign, one_mul]
  refine ⟨t, by rw [ht, abs_sign_mul_sub], ?_⟩
  rcases lt_or_ge t 0 with hneg | hpos
  · exact .inl (hneg.le.trans (below_nonneg h0))
  rw [abs_of_nonneg hpos] at habs
  rcases lt_trichotomy |z.value| |x.value| with hlt | heq | hgt
  · exact .inl (habs ▸ le_below hlt)
  · exact .inr (.inl ⟨by rw [ht, ← habs, heq, ← value_eq], habs ▸ heq⟩)
  · exact .inr (.inr (habs ▸ above_le hgt))

theorem ReadsBack.roundsTo (hf : x.isFinite) (h0 : x.significand ≠ 0) (h : x.ReadsBack w) :
    RoundsTo (x.sign * w) x := by
  have hx : |x.sign * w - x.value| = |w - (|x.value|)| := abs_sub_value rfl w
  have hbounds := h.bounds
  refine ⟨hf, ?_, ?_, ?_⟩
  · rw [abs_mul, abs_sign, one_mul, abs_of_pos (h.pos h0)]
    exact h.lt_overflow hf
  · intro z hz
    obtain ⟨t, ht, hlow | ⟨_, rfl⟩ | hhigh⟩ := exists_apart h0 z w
    · rw [hx, ht, abs_sub_le_abs_sub_iff (hlow.trans_lt x.below_lt)]
      linarith
    · rw [hx, ht]
    · rw [hx, ht, abs_sub_le_abs_sub_iff' (x.lt_above.trans_le hhigh)]
      linarith
  · intro z hz hne he
    obtain ⟨t, ht, hlow | ⟨hv, _⟩ | hhigh⟩ := exists_apart h0 z w
    · rw [hx, ht] at he
      have hmid := (abs_sub_le_abs_sub_iff' (hlow.trans_lt x.below_lt)).1 he.le
      exact h.even_of_end (.inl (le_antisymm (by linarith) hbounds.1))
    · exact absurd hv hne
    · rw [hx, ht] at he
      have hmid := (abs_sub_le_abs_sub_iff (x.lt_above.trans_le hhigh)).1 he.le
      exact h.even_of_end (.inr (le_antisymm hbounds.2 (by linarith)))

theorem roundsTo_iff (hf : x.isFinite) (h0 : x.significand ≠ 0) :
    RoundsTo (x.sign * w) x ↔ x.ReadsBack w :=
  ⟨RoundsTo.readsBack h0, ReadsBack.roundsTo hf h0⟩

theorem roundsTo_zero (hf : x.isFinite) (h0 : x.value = 0) : RoundsTo 0 x := by
  refine ⟨hf, ?_, ?_, ?_⟩
  · rw [abs_zero, sub_pos]
    exact pow_lt_pow_right₀ one_lt_two (by decide)
  · intro z _
    rw [h0, sub_self, abs_zero]
    exact abs_nonneg _
  · intro z _ hne he
    rw [h0] at hne he
    rw [sub_self, abs_zero, abs_eq_zero, zero_sub, neg_eq_zero] at he
    exact absurd he hne

theorem value_eq_zero_iff : x.value = 0 ↔ x.significand = 0 := by
  rw [← abs_eq_zero, abs_value_eq, mul_eq_zero, Nat.cast_eq_zero, or_iff_left x.ulp_pos.ne']

end Interval

/-! Rounding gives one number. -/

section Unique

variable {x z : Binary64} {y w : ℚ}

theorem abs_value_eq_iff :
    |x.value| = |z.value| ↔ x.level = z.level ∧ x.significand = z.significand := by
  refine ⟨fun h => ?_, fun ⟨hl, hs⟩ => by rw [abs_value_eq, abs_value_eq, ulp, ulp, hl, hs]⟩
  have hscaled : x.significand * 2 ^ x.level = z.significand * 2 ^ z.level := by
    have hxz := mt abs_value_lt_iff.2 h.not_lt
    have hzx := mt abs_value_lt_iff.2 h.not_gt
    omega
  have hlevel : x.level = z.level := by
    rcases Nat.lt_trichotomy x.level z.level with hlt | heq | hgt
    · exact absurd hscaled (scaled_lt_of_level_lt hlt).ne
    · exact heq
    · exact absurd hscaled (scaled_lt_of_level_lt hgt).ne'
  rw [hlevel] at hscaled
  exact ⟨hlevel, Nat.eq_of_mul_eq_mul_right (Nat.two_pow_pos _) hscaled⟩

theorem eq_of_fields (hn : x.isNegative = z.isNegative)
    (he : x.exponentField = z.exponentField) (hf : x.fraction = z.fraction) : x = z := by
  have hbits : x.bits.toNat = z.bits.toNat := by
    have hx := x.bits.toNat_lt
    have hz := z.bits.toNat_lt
    simp only [isNegative, decide_eq_decide] at hn
    unfold exponentField leadingOne at he
    unfold fraction leadingOne at hf
    omega
  exact congrArg Binary64.mk (UInt64.toNat_inj.1 hbits)

theorem eq_of_abs_value_eq (hn : x.isNegative = z.isNegative) (h : |x.value| = |z.value|) :
    x = z := by
  obtain ⟨hlevel, hsignificand⟩ := abs_value_eq_iff.1 h
  have hx := x.fraction_lt
  have hz := z.fraction_lt
  unfold level at hlevel
  unfold significand at hsignificand
  refine eq_of_fields hn ?_ ?_ <;> split_ifs at hsignificand <;> omega

theorem not_even_of_above (h : x.above = |z.value|) (hx : Even x.significand) :
    ¬ Even z.significand := by
  have hlevel : x.level ≤ z.level := by
    by_contra hlt
    have hgt := abs_value_lt_iff.2 (scaled_lt_of_level_lt (Nat.not_le.1 hlt))
    rw [← h] at hgt
    exact hgt.asymm x.lt_above
  obtain ⟨d, hd⟩ := Nat.exists_eq_add_of_le hlevel
  have hsucc : x.significand + 1 = z.significand * 2 ^ d := by
    have hulp : z.ulp = 2 ^ d * x.ulp := by
      rw [ulp, ulp, hd, pow_add]
      ring
    rw [above, abs_value_eq, hulp, ← mul_assoc] at h
    exact_mod_cast mul_right_cancel₀ x.ulp_pos.ne' h
  intro hz
  have hodd : ¬ Even (x.significand + 1) := Nat.not_even_iff_odd.2 hx.add_one
  rw [hsucc] at hodd
  exact hodd (hz.mul_right _)

theorem ReadsBack.not_lt (hx : x.ReadsBack w) (hz : z.ReadsBack w) : ¬ |x.value| < |z.value| := by
  intro hlt
  have habove := above_le hlt
  have hbelow := le_below hlt
  have hhigh := hx.bounds.2
  have hlow := hz.bounds.1
  have hxeven := hx.even_of_end (.inr (by linarith))
  have hzeven := hz.even_of_end (.inl (by linarith))
  exact not_even_of_above (by linarith) hxeven hzeven

theorem RoundsTo.value_eq_zero (hx : RoundsTo y x) (h0 : x.value = 0) (hz : RoundsTo y z) :
    z.value = 0 := by
  rw [value_eq_zero_iff]
  by_contra hs
  have hreads := hz.readsBack_sign_mul hs
  have hy : y = z.sign * (z.sign * y) := (z.sign_mul_sign_mul y).symm
  generalize z.sign * y = w at hreads hy
  have hnearest := hx.nearest z hz.finite
  rw [hy, h0, sub_zero, abs_mul, abs_sign, one_mul, abs_sub_value rfl] at hnearest
  have hpos : 0 < |z.value| := (below_nonneg hs).trans_lt z.below_lt
  have hhalf := (abs_sub_le_abs_sub_iff' hpos).1 (by rwa [sub_zero])
  have hlow := hreads.bounds.1
  have hbelow := below_nonneg hs
  obtain ⟨k, hk⟩ := hreads.even_of_end (.inl (by linarith))
  -- an even significand is at least two, so the number below is not zero
  have hbelow_pos : 0 < z.below := by
    have htwo : (2 : ℚ) ≤ z.significand := by exact_mod_cast (show 2 ≤ z.significand by omega)
    apply mul_pos _ z.ulp_pos
    split_ifs <;> linarith
  linarith

theorem RoundsTo.value_inj (hx : RoundsTo y x) (hz : RoundsTo y z) : x.value = z.value := by
  by_cases hx0 : x.value = 0
  · rw [hx0, hx.value_eq_zero hx0 hz]
  by_cases hz0 : z.value = 0
  · rw [hz0, hz.value_eq_zero hz0 hx]
  have hxs := mt value_eq_zero_iff.2 hx0
  have hzs := mt value_eq_zero_iff.2 hz0
  have hxr := hx.readsBack_sign_mul hxs
  have hzr := hz.readsBack_sign_mul hzs
  have hsign : x.sign = z.sign := by
    have hxpos := hxr.pos hxs
    have hzpos := hzr.pos hzs
    unfold sign at hxpos hzpos ⊢
    split_ifs at hxpos hzpos ⊢ <;> first | rfl | linarith
  rw [hsign] at hxr
  rw [x.value_eq, z.value_eq, hsign,
    le_antisymm (not_lt.1 (hzr.not_lt hxr)) (not_lt.1 (hxr.not_lt hzr))]

end Unique

end ValueStorage.Binary64
