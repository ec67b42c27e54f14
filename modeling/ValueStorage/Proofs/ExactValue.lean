import Mathlib.Algebra.Order.Round
import Mathlib.Tactic.FieldSimp
import Mathlib.Tactic.Linarith
import Mathlib.Tactic.Ring
import ValueStorage.Number.Text

/-! What binary numbers are worth. The bits of a finite number stand for a rational number, and all
its decimal texts are made from that number without an error, up to one rounding at the end. -/

namespace ValueStorage

/-- The whole number next to `y`; of two that are equally near, the even one. -/
structure NearestEven (y : ℚ) (n : ℕ) : Prop where
  nearest (m : ℤ) : |y - n| ≤ |y - m|
  even (m : ℤ) (hm : m ≠ n) (h : |y - m| = |y - n|) : Even n

variable {y : ℚ} {n : ℕ}

theorem one_le_abs_sub {m : ℤ} (hm : m ≠ n) : 1 ≤ |y - n| + |y - m| := by
  have apart : (1 : ℚ) ≤ |(m : ℚ) - n| := by
    have hi : 1 ≤ |m - (n : ℤ)| := Int.one_le_abs (sub_ne_zero.2 hm)
    exact_mod_cast hi
  calc (1 : ℚ) ≤ |(m : ℚ) - n| := apart
    _ = |(y - n) - (y - m)| := by rw [sub_sub_sub_cancel_left]
    _ ≤ |y - n| + |y - m| := abs_sub _ _

theorem nearestEven_of_abs_le (h : |y - n| ≤ 1 / 2) (he : |y - n| = 1 / 2 → Even n) :
    NearestEven y n := by
  constructor
  · intro m
    rcases eq_or_ne m n with rfl | hm
    · exact le_of_eq (by norm_cast)
    · have ha := one_le_abs_sub (y := y) hm
      linarith
  · intro m hm hd
    have ha := one_le_abs_sub (y := y) hm
    exact he (by linarith)

theorem even_add_mod_two (n : ℕ) : Even (n + n % 2) := by
  rw [Nat.even_iff]
  omega

theorem nearestEven_roundHalfEven (num : ℕ) {den : ℕ} (hd : 0 < den) :
    NearestEven ((num : ℚ) / den) (roundHalfEven num den) := by
  have hden : (0 : ℚ) < den := by exact_mod_cast hd
  have hnum : (den : ℚ) * (num / den : ℕ) + (num % den : ℕ) = num := by
    exact_mod_cast Nat.div_add_mod num den
  have hlt : ((num % den : ℕ) : ℚ) < den := by exact_mod_cast Nat.mod_lt num hd
  have hy : (num : ℚ) / den = (num / den : ℕ) + (num % den : ℕ) / (den : ℚ) := by
    rw [← hnum, add_div, mul_div_cancel_left₀ _ hden.ne']
  unfold roundHalfEven
  generalize num / den = floor at hy ⊢
  generalize num % den = rest at hy hlt ⊢
  have hpart : 0 ≤ (rest : ℚ) / den := by positivity
  rw [hy]
  dsimp only
  split_ifs with hbelow habove
  · have hhalf : (rest : ℚ) / den < 1 / 2 := by
      rw [div_lt_div_iff₀ hden two_pos, one_mul, mul_comm]
      exact_mod_cast hbelow
    apply nearestEven_of_abs_le <;> rw [add_sub_cancel_left, abs_of_nonneg hpart]
    · exact hhalf.le
    · intro he
      exact absurd he hhalf.ne
  · have hhalf : 1 / 2 < (rest : ℚ) / den := by
      rw [div_lt_div_iff₀ two_pos hden, one_mul, mul_comm (rest : ℚ)]
      exact_mod_cast habove
    have hone : (rest : ℚ) / den < 1 := (div_lt_one hden).2 hlt
    have hgap : |(floor : ℚ) + rest / den - (floor + 1 : ℕ)| = 1 - rest / den := by
      rw [Nat.cast_add, Nat.cast_one, add_sub_add_left_eq_sub, abs_sub_comm]
      exact abs_of_pos (sub_pos.2 hone)
    apply nearestEven_of_abs_le <;> rw [hgap]
    · linarith
    · intro he
      linarith
  · have hhalf : (rest : ℚ) / den = 1 / 2 := by
      rw [div_eq_div_iff hden.ne' two_ne_zero, one_mul, mul_comm]
      exact_mod_cast (by omega : 2 * rest = den)
    have hgap : |(floor : ℚ) + rest / den - (floor + floor % 2 : ℕ)| = 1 / 2 := by
      rw [hhalf, Nat.cast_add, add_sub_add_left_eq_sub]
      rcases Nat.mod_two_eq_zero_or_one floor with h | h <;> rw [h] <;> norm_num
    apply nearestEven_of_abs_le
    · exact hgap.le
    · intro _
      exact even_add_mod_two floor

namespace Binary64

variable (x : Binary64)

def value : ℚ :=
  (if x.isNegative then -1 else 1) *
    if x.exponentField = 0 then (x.fraction : ℚ) / 2 ^ 52 * 2 ^ (-1022 : ℤ)
    else (1 + (x.fraction : ℚ) / 2 ^ 52) * 2 ^ ((x.exponentField : ℤ) - 1023)

theorem two_zpow_sub (k : ℤ) : (2 : ℚ) ^ (k - 52) = 2 ^ k / 2 ^ 52 := by
  rw [zpow_sub₀ two_ne_zero]
  norm_cast

theorem abs_value : |x.value| = x.significand * (2 : ℚ) ^ ((x.level : ℤ) - 1074) := by
  have hsign : |if x.isNegative then (-1 : ℚ) else 1| = 1 := by
    split <;> simp
  have hone : (leadingOne : ℚ) = 2 ^ 52 := by norm_num [leadingOne]
  rw [value, abs_mul, hsign, one_mul]
  unfold significand level
  split_ifs with he
  · have hl : ((max x.exponentField 1 - 1 : ℕ) : ℤ) - 1074 = -1022 - 52 := by omega
    have hpos : 0 ≤ (2 : ℚ) ^ (-1022 : ℤ) := zpow_nonneg zero_le_two _
    rw [abs_of_nonneg (by positivity), hl, two_zpow_sub, div_mul_eq_mul_div, mul_div_assoc]
  · have hl : ((max x.exponentField 1 - 1 : ℕ) : ℤ) - 1074 = (x.exponentField - 1023) - 52 := by
      omega
    have hpos : 0 ≤ (2 : ℚ) ^ ((x.exponentField : ℤ) - 1023) := zpow_nonneg zero_le_two _
    rw [abs_of_nonneg (mul_nonneg (by positivity) hpos), hl, two_zpow_sub, Nat.cast_add, hone]
    generalize (2 : ℚ) ^ ((x.exponentField : ℤ) - 1023) = power
    field_simp

theorem cast_unit : (x.unit : ℚ) = (2 : ℚ) ^ ((x.level : ℤ) - 1074) * 10 ^ x.places := by
  unfold unit places
  simp only [Nat.pow_eq]
  push_cast
  rcases le_total x.level 1074 with h | h
  · have hl : ((x.level : ℤ) - 1074) = -((1074 - x.level : ℕ) : ℤ) := by omega
    rw [hl, Nat.sub_eq_zero_of_le h, zpow_neg, zpow_natCast]
    rw [show (10 : ℚ) = 2 * 5 by norm_num, mul_pow]
    field_simp
  · have hl : ((x.level : ℤ) - 1074) = ((x.level - 1074 : ℕ) : ℤ) := by omega
    rw [hl, Nat.sub_eq_zero_of_le h, zpow_natCast, pow_zero, pow_zero, mul_one, one_mul]

theorem cast_magnitude : (x.magnitude : ℚ) = |x.value| * 10 ^ x.places := by
  rw [magnitude, Nat.cast_mul, cast_unit, abs_value, mul_assoc]

theorem nearestEven_millionths : NearestEven (|x.value| * 10 ^ 6) x.millionths := by
  have hpow : 0 < Nat.pow 10 x.places := Nat.pow_pos (by decide)
  have hr := nearestEven_roundHalfEven (x.magnitude * 1000000) hpow
  have hq : ((x.magnitude * 1000000 : ℕ) : ℚ) / (Nat.pow 10 x.places : ℕ) = |x.value| * 10 ^ 6 := by
    rw [Nat.cast_mul, cast_magnitude, Nat.pow_eq]
    push_cast
    field_simp
    norm_num
  rw [hq] at hr
  exact hr

theorem isNegative_eq_testBit : x.isNegative = x.bits.toNat.testBit 63 := by
  have hlt := x.bits.toNat_lt
  rw [isNegative, Nat.testBit_eq_decide_div_mod_eq]
  simp
  omega

end Binary64
end ValueStorage
