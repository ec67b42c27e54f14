import ValueStorage.Proofs.DecimalText

/-! The literal of a binary number. Its sign shows the sign bit, the decimal behind it is rounded to the
number it was made from, no decimal with fewer digits is, and the magnitude alone decides in which of
the two forms it is written. -/

namespace ValueStorage

open Decimal

namespace Binary64

variable {x : Binary64}

/-! The decimal. -/

theorem shortest_of_value_eq_zero (h : x.value = 0) : x.shortest = ⟨0, 0⟩ :=
  if_pos (value_eq_zero_iff.1 h)

theorem value_shortest_of_value_eq_zero (h : x.value = 0) : x.shortest.value = 0 := by
  rw [shortest_of_value_eq_zero h, Decimal.value, Nat.cast_zero, zero_mul]

theorem roundsTo_shortest (hx : x.isFinite) : RoundsTo (x.sign * x.shortest.value) x := by
  by_cases h0 : x.value = 0
  · rw [value_shortest_of_value_eq_zero h0, mul_zero]
    exact roundsTo_zero hx h0
  · have hs : x.significand ≠ 0 := fun h => h0 (value_eq_zero_iff.2 h)
    exact (roundsTo_iff hx hs).2 (coarsest_shortest hs).reads

theorem RoundsTo.readsBack_natAbs (hs : x.significand ≠ 0) {m e : ℤ} (h : RoundsTo (m * 10 ^ e) x) :
    x.ReadsBack (m.natAbs * 10 ^ e) := by
  have hreads := h.readsBack_sign_mul hs
  rw [← mul_assoc] at hreads
  have hpos : 0 < x.sign * m := pos_of_mul_pos_left (hreads.pos hs) (by positivity)
  have habs : x.sign * m = (m.natAbs : ℚ) := by
    rw [← abs_of_pos hpos, abs_mul, abs_sign, one_mul, Nat.cast_natAbs, Int.cast_abs]
  rwa [habs] at hreads

theorem length_shortest_le (hs : x.significand ≠ 0) {m e : ℤ} (h : RoundsTo (m * 10 ^ e) x) :
    (Nat.toDigits 10 x.shortest.digits).length ≤ significant (Nat.toDigits 10 m.natAbs) := by
  have hcoarsest := coarsest_shortest hs
  obtain ⟨k, t, hsplit, hlt⟩ := exists_trimmed_number m.natAbs
  rw [← significant_toDigits] at hlt
  have hreads := h.readsBack_natAbs hs
  rw [hsplit, Nat.cast_mul, mul_assoc, Nat.cast_pow, Nat.cast_ofNat, ← zpow_natCast,
    ← zpow_add₀ (by norm_num)] at hreads
  have hdigits := hcoarsest.digits_lt hs hreads hlt
  have hpos : 0 < significant (Nat.toDigits 10 m.natAbs) := by
    by_contra hzero
    rw [Nat.eq_zero_of_not_pos hzero, pow_zero, Nat.lt_one_iff] at hdigits
    exact hcoarsest.digits_mod_ten (by rw [hdigits])
  exact (Nat.length_toDigits_le_iff (by decide) hpos).2 hdigits

/-! The form. -/

theorem isPositional_iff :
    x.isPositional ↔ x.value = 0 ∨ (1 / 10 ^ 4 ≤ |x.value| ∧ |x.value| < 10 ^ 16) := by
  have hp : (0 : ℚ) < 10 ^ x.places := by positivity
  have hlow : Nat.pow 10 x.places ≤ x.magnitude * 10000 ↔ 1 / 10 ^ 4 ≤ |x.value| := by
    rw [← @Nat.cast_le ℚ, Nat.pow_eq, Nat.cast_mul, cast_magnitude]
    push_cast
    rw [mul_right_comm, le_mul_iff_one_le_left hp, div_le_iff₀ (by norm_num)]
    norm_num
  have hhigh : x.magnitude < Nat.pow 10 (x.places + 16) ↔ |x.value| < 10 ^ 16 := by
    rw [← @Nat.cast_lt ℚ, Nat.pow_eq, cast_magnitude]
    push_cast
    rw [pow_add, mul_comm, mul_lt_mul_iff_right₀ hp]
  rw [isPositional, decide_eq_true_eq, hlow, hhigh, value_eq_zero_iff]

theorem literal_of_isFinite (hx : x.isFinite) :
    x.literal = x.signText ++
      if x.isPositional then x.shortest.positional else x.shortest.scientific := by
  rw [literal, if_neg (not_isNaN_of_isFinite hx), if_neg (not_isInfinite_of_isFinite hx)]

theorem exists_body (x : Binary64) : ∃ body,
    (if x.isPositional then x.shortest.positional else x.shortest.scientific) =
        String.ofList body ∧
      Writes body x.shortest ∧ if x.isPositional then IsPositional body else IsScientific body := by
  split
  · obtain ⟨body, htext, hwrites, hform⟩ := writes_positional x.shortest
    exact ⟨body, htext, hwrites, hform⟩
  · next h =>
    have hs : x.significand ≠ 0 := fun h0 => h (isPositional_iff.2 (.inl (value_eq_zero_iff.2 h0)))
    obtain ⟨body, htext, hwrites, hform⟩ := writes_scientific (coarsest_shortest hs).digits_mod_ten
    exact ⟨body, htext, hwrites, hform⟩

end Binary64

open Binary64

/-- The literal of a finite double has a minus exactly if the sign bit is set. What follows is a decimal
that is rounded back to the number, and unless that is zero, no decimal with fewer digits is rounded
to it, zeros in front and at the end not counted. It is written with a point for zero and from
`10 ^ -4` up to `10 ^ 16`, and elsewhere with an exponent. -/
theorem literal_double_shortest (x : Binary64) (hx : x.isFinite) : ∃ body q,
    (Value.double x).literal =
        String.ofList ((if x.bits.toNat.testBit 63 then ['-'] else []) ++ body) ∧
      Decimal.read? body = some q ∧
      RoundsTo ((if x.bits.toNat.testBit 63 then -1 else 1) * q) x ∧
      (x.value ≠ 0 → ∀ m e : ℤ, RoundsTo (m * 10 ^ e) x →
        significant body ≤ significant (Nat.toDigits 10 m.natAbs)) ∧
      if x.value = 0 ∨ (1 / 10 ^ 4 ≤ |x.value| ∧ |x.value| < 10 ^ 16) then IsPositional body
      else IsScientific body := by
  obtain ⟨body, htext, hwrites, hform⟩ := x.exists_body
  refine ⟨body, x.shortest.value, ?_, hwrites.read, ?_, ?_, ?_⟩
  · change x.literal = _
    rw [literal_of_isFinite hx, htext, signText_eq, ← String.ofList_append]
  · rw [← isNegative_eq_testBit]
    exact roundsTo_shortest hx
  · intro h0 m e h
    have hs : x.significand ≠ 0 := fun h => h0 (value_eq_zero_iff.2 h)
    exact hwrites.significant_le.trans (length_shortest_le hs h)
  · simpa only [isPositional_iff] using hform

theorem literal_double_shortest_least :
    let x : Binary64 := ⟨0x8000000000000001⟩
    x.isFinite ∧ x.value ≠ 0 ∧ (Value.double x).literal = "-5e-324" ∧
      (∃ body q, (Value.double x).literal = String.ofList ('-' :: body) ∧
        Decimal.read? body = some q ∧ RoundsTo (-1 * q) x ∧ IsScientific body ∧
        ∀ m e : ℤ, RoundsTo (m * 10 ^ e) x →
          significant body ≤ significant (Nat.toDigits 10 m.natAbs)) ∧
      (Value.double ⟨0x8000000000000000⟩).literal = "-0.0" := by
  intro x
  have hfinite : x.isFinite := by decide
  have hsign : x.bits.toNat.testBit 63 = true := by decide
  have h0 : x.value ≠ 0 := fun h => absurd (value_eq_zero_iff.1 h) (by decide)
  have hpositional : x.isPositional = false := by decide +kernel
  have hrange : ¬ (x.value = 0 ∨ (1 / 10 ^ 4 ≤ |x.value| ∧ |x.value| < 10 ^ 16)) := by
    rw [← isPositional_iff, hpositional]
    decide
  obtain ⟨body, q, htext, hread, hrounds, hfewest, hform⟩ := literal_double_shortest x hfinite
  rw [hsign] at htext hrounds
  rw [if_neg hrange] at hform
  exact ⟨hfinite, h0, by decide +kernel, ⟨body, q, htext, hread, hrounds, hform, hfewest h0⟩,
    by decide +kernel⟩

end ValueStorage
