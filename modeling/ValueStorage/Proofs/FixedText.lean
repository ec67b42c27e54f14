import ValueStorage.Proofs.ExactValue
import ValueStorage.Value.Render

/-! The fixed text of a binary number is a correctly rounded decimal. It is read here as a whole: a
sign, digits with a point among them, and the number that the digits spell. -/

namespace ValueStorage

/-- Digits before and after a point. No zero leads them but a single one before the point, and read
without the point they are the number `n`. -/
structure Spells (whole decimals : List Char) (places n : ℕ) : Prop where
  digits : ∀ c ∈ whole ++ decimals, c.isDigit
  whole_ne_nil : whole ≠ []
  length_decimals : decimals.length = places
  leading_zero : whole.head? = some '0' → whole = ['0']
  number : Nat.ofDigitChars 10 (whole ++ decimals) 0 = n

namespace Decimal

theorem eq_zero_of_head? {n : ℕ} (h : (Nat.toDigits 10 n).head? = some '0') : n = 0 := by
  induction n using Nat.strongRecOn with
  | ind n ih =>
    rcases Nat.lt_or_ge n 10 with hlt | hge
    · rw [Nat.toDigits_of_lt_base hlt] at h
      exact Nat.digitChar_eq_zero.1 (Option.some.inj h)
    -- the first digit is that of the number without its last one
    · have hne : Nat.toDigits 10 (n / 10) ≠ [] := Nat.toDigits_ne_nil
      rw [Nat.toDigits_of_base_le (by decide) hge, List.head?_append_of_ne_nil _ hne] at h
      have hrest : n / 10 = 0 := ih (n / 10) (by omega) h
      omega

variable (places n : ℕ)

def padded : List Char := (Nat.toDigits 10 n).leftpad (places + 1) '0'

theorem length_padded : places + 1 ≤ (padded places n).length := by
  rw [padded, List.length_leftpad]
  exact Nat.le_max_left _ _

theorem isDigit_padded {c : Char} (h : c ∈ padded places n) : c.isDigit := by
  rcases List.mem_append.1 h with hzero | hdigit
  · rw [List.eq_of_mem_replicate hzero]
    decide
  · exact Nat.isDigit_of_mem_toDigits (by decide) (by decide) hdigit

theorem number_padded : Nat.ofDigitChars 10 (padded places n) 0 = n := by
  rw [padded, List.leftpad, Nat.ofDigitChars_append, Nat.ofDigitChars_replicate_zero, Nat.mul_zero]
  exact Nat.ofDigitChars_ten_toDigits

theorem length_padded_of_head? (h : (padded places n).head? = some '0') :
    (padded places n).length = places + 1 := by
  rcases Nat.lt_or_ge (Nat.toDigits 10 n).length (places + 2) with hshort | hlong
  · rw [padded, List.length_leftpad]
    omega
  -- there was nothing to fill up, so the number itself begins with the zero
  · have hself : padded places n = Nat.toDigits 10 n := by
      rw [padded, List.leftpad, Nat.sub_eq_zero_of_le (by omega)]
      rfl
    rw [hself] at h
    rw [eq_zero_of_head? h, Nat.toDigits_zero] at hlong
    exact absurd hlong (by simp)

theorem exists_pointed : ∃ whole decimals,
    pointed places n = String.ofList (whole ++ '.' :: decimals) ∧
      whole ++ decimals = padded places n ∧ Spells whole decimals places n := by
  have hlong := length_padded places n
  obtain ⟨front, hfront⟩ : ∃ front, front = (padded places n).length - places := ⟨_, rfl⟩
  refine ⟨(padded places n).take front, (padded places n).drop front, ?_,
    List.take_append_drop .., ?_, ?_, ?_, ?_, ?_⟩
  · rw [hfront]
    rfl
  · intro c hc
    rw [List.take_append_drop] at hc
    exact isDigit_padded places n hc
  · apply List.ne_nil_of_length_pos
    rw [List.length_take]
    omega
  · rw [List.length_drop]
    omega
  · intro hzero
    rw [List.head?_take, if_neg (by omega)] at hzero
    have hone : front = 1 := by
      rw [hfront, length_padded_of_head? places n hzero]
      omega
    obtain ⟨rest, hrest⟩ := List.head?_eq_some_iff.1 hzero
    rw [hone, hrest]
    rfl
  · rw [List.take_append_drop]
    exact number_padded places n

theorem spells_pointed : ∃ whole decimals,
    pointed places n = String.ofList (whole ++ '.' :: decimals) ∧
      Spells whole decimals places n := by
  obtain ⟨whole, decimals, htext, _, hspells⟩ := exists_pointed places n
  exact ⟨whole, decimals, htext, hspells⟩

end Decimal

namespace Binary64

theorem signText_eq (x : Binary64) :
    x.signText = String.ofList (if x.bits.toNat.testBit 63 then ['-'] else []) := by
  rw [signText, isNegative_eq_testBit]
  split <;> rfl

/-! The three kinds of numbers. -/

section Kinds

variable {x : Binary64}

theorem not_isNaN_of_isInfinite (h : x.isInfinite) : ¬ x.isNaN := by
  simp only [isInfinite, isNaN, decide_eq_true_eq] at h ⊢
  exact fun hn => hn.2 h.2

theorem not_isNaN_of_isFinite (h : x.isFinite) : ¬ x.isNaN := by
  simp only [isFinite, isNaN, decide_eq_true_eq] at h ⊢
  exact fun hn => h hn.1

theorem not_isInfinite_of_isFinite (h : x.isFinite) : ¬ x.isInfinite := by
  simp only [isFinite, isInfinite, decide_eq_true_eq] at h ⊢
  exact fun hn => h hn.1

theorem fixedText_of_isNaN (h : x.isNaN) : x.fixedText = "nan" := by
  rw [fixedText, if_pos h]

theorem fixedText_of_isInfinite (h : x.isInfinite) :
    x.fixedText = if x.bits.toNat.testBit 63 then "-inf" else "inf" := by
  rw [fixedText, if_neg (not_isNaN_of_isInfinite h), if_pos h, signText_eq]
  split <;> rfl

theorem fixedText_of_isFinite (h : x.isFinite) :
    x.fixedText = x.signText ++ Decimal.pointed 6 x.millionths := by
  rw [fixedText, if_neg (not_isNaN_of_isFinite h), if_neg (not_isInfinite_of_isFinite h)]

end Kinds

end Binary64

/-- A finite double is displayed with six decimals: a minus exactly if the sign bit is set, then
digits with a point before the last six of them. What they spell is the number itself in millionths,
rounded to the nearest, half way to even. Every NaN is displayed alike, and the infinities with
their signs. -/
theorem display_double_rounds (x : Binary64) :
    (x.isNaN → (Value.double x).display = "nan") ∧
    (x.isInfinite →
      (Value.double x).display = if x.bits.toNat.testBit 63 then "-inf" else "inf") ∧
    (x.isFinite → ∃ whole decimals n,
      (Value.double x).display = String.ofList
        ((if x.bits.toNat.testBit 63 then ['-'] else []) ++ whole ++ '.' :: decimals) ∧
      Spells whole decimals 6 n ∧ NearestEven (|x.value| * 10 ^ 6) n) := by
  refine ⟨Binary64.fixedText_of_isNaN, Binary64.fixedText_of_isInfinite, ?_⟩
  intro hfinite
  obtain ⟨whole, decimals, htext, hspells⟩ := Decimal.spells_pointed 6 x.millionths
  refine ⟨whole, decimals, x.millionths, ?_, hspells, x.nearestEven_millionths⟩
  change x.fixedText = _
  rw [Binary64.fixedText_of_isFinite hfinite, htext, Binary64.signText_eq, ← String.ofList_append,
    List.append_assoc]

theorem display_double_rounds_half :
    let x : Binary64 := ⟨0xBF80000000000000⟩
    x.isFinite ∧ x.value = -1 / 128 ∧ (Value.double x).display = "-0.007812" ∧
      (∃ whole decimals n,
        (Value.double x).display = String.ofList (['-'] ++ whole ++ '.' :: decimals) ∧
        Spells whole decimals 6 n ∧ NearestEven (|x.value| * 10 ^ 6) n) ∧
      (Value.double ⟨0xFFF8000000000001⟩).display = "nan" ∧
      (Value.double ⟨0xFFF0000000000000⟩).display = "-inf" := by
  intro x
  have hsign : x.bits.toNat.testBit 63 = true := by decide
  have hexponent : x.exponentField = 1016 := by decide
  have hfraction : x.fraction = 0 := by decide
  have hvalue : x.value = -1 / 128 := by
    rw [Binary64.value, Binary64.isNegative_eq_testBit, hsign, hexponent, hfraction]
    norm_num
  obtain ⟨whole, decimals, n, htext, hrest⟩ := (display_double_rounds x).2.2 (by decide)
  rw [hsign] at htext
  have hnan := (display_double_rounds ⟨0xFFF8000000000001⟩).1 (by decide)
  have hinfinite := (display_double_rounds ⟨0xFFF0000000000000⟩).2.1 (by decide)
  exact ⟨by decide, hvalue, by decide +kernel, ⟨whole, decimals, n, htext, hrest⟩, hnan, hinfinite⟩

end ValueStorage
