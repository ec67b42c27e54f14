import ValueStorage.Proofs.NearestBinary

/-! The search for the shortest decimal. It looks at grids of decimals, the coarsest first. On a grid
some point reads back exactly if one of the two points next to the number does, so the first hit is on
the coarsest grid of all. A decimal of the coarsest grid has the fewest digits: of two that read back
and are written with different numbers of digits, a power of ten lies between. -/

namespace ValueStorage

def Decimal.value (d : Decimal) : ℚ := d.digits * 10 ^ d.exponent

namespace Binary64

variable {x : Binary64}

/-! The test on whole numbers. -/

section Scaled

theorem cast_unit_eq (x : Binary64) : (x.unit : ℚ) = x.ulp * 10 ^ x.places := by
  rw [cast_unit, ulp, sub_eq_add_neg, zpow_add₀ two_ne_zero, zpow_natCast]

theorem cast_lowEnd (h0 : x.significand ≠ 0) :
    (x.lowEnd : ℚ) = 4 * ((x.below + |x.value|) / 2) * 10 ^ x.places := by
  have hle : (if x.Narrow then 1 else 2) ≤ 4 * x.significand := by split <;> omega
  change (((4 * x.significand - if x.Narrow then 1 else 2) * x.unit : ℕ) : ℚ) = _
  rw [Nat.cast_mul, Nat.cast_sub hle, cast_unit_eq, below, abs_value_eq]
  split_ifs <;> push_cast <;> ring

theorem cast_highEnd (x : Binary64) :
    (x.highEnd : ℚ) = 4 * ((|x.value| + x.above) / 2) * 10 ^ x.places := by
  rw [highEnd, Nat.cast_mul, cast_unit_eq, above, abs_value_eq]
  push_cast
  ring

theorem cast_le_four_mul {a n : ℕ} {b c : ℚ} (ha : (a : ℚ) = 4 * b * c) :
    (a ≤ 4 * n ↔ b * c ≤ n) ∧ (a < 4 * n ↔ b * c < n) ∧ (4 * n ≤ a ↔ n ≤ b * c) ∧
      (4 * n < a ↔ n < b * c) := by
  have hcast : ((4 * n : ℕ) : ℚ) = 4 * n := by push_cast; rfl
  simp only [← @Nat.cast_le ℚ, ← @Nat.cast_lt ℚ, ha, hcast]
  refine ⟨?_, ?_, ?_, ?_⟩ <;> constructor <;> intro _ <;> linarith

theorem readsBack_iff (h0 : x.significand ≠ 0) (n : ℕ) :
    x.readsBack n ↔ x.ReadsBack (n / 10 ^ x.places) := by
  have hp : (0 : ℚ) < 10 ^ x.places := by positivity
  obtain ⟨hlow, hlow', _⟩ := cast_le_four_mul (n := n) (cast_lowEnd h0)
  obtain ⟨_, _, hhigh, hhigh'⟩ := cast_le_four_mul (n := n) x.cast_highEnd
  unfold readsBack ReadsBack
  simp only [← Nat.even_iff]
  split_ifs with heven
  · rw [decide_eq_true_eq, le_div_iff₀ hp, div_le_iff₀ hp, hlow, hhigh]
  · rw [decide_eq_true_eq, lt_div_iff₀ hp, div_lt_iff₀ hp, hlow', hhigh']

theorem div_places_le_div_places {a b : ℕ} (h : a ≤ b) :
    (a : ℚ) / 10 ^ x.places ≤ b / 10 ^ x.places :=
  div_le_div_of_nonneg_right (by exact_mod_cast h) (by positivity)

theorem readsBack_magnitude (h0 : x.significand ≠ 0) : x.readsBack x.magnitude := by
  rw [readsBack_iff h0, cast_magnitude, mul_div_cancel_right₀ _ (by positivity)]
  exact x.readsBack_abs_value

theorem readsBack_between (h0 : x.significand ≠ 0) {a b n : ℕ} (ha : x.readsBack a)
    (hb : x.readsBack b) (han : a ≤ n) (hnb : n ≤ b) : x.readsBack n := by
  rw [readsBack_iff h0] at *
  exact ha.between hb (div_places_le_div_places han) (div_places_le_div_places hnb)

end Scaled

/-! The search. -/

section Search

variable {grid : ℕ}

theorem readsBack_of_neighbour? {digits : ℕ} (h : x.neighbour? grid = some digits) :
    x.readsBack (digits * 10 ^ grid) := by
  unfold neighbour? at h
  dsimp only [Nat.pow_eq] at h
  split at h
  · exact nomatch h
  · next hb _ =>
    cases h
    exact hb
  · next _ ha =>
    cases h
    exact ha
  · next hb ha =>
    split at h <;> cases h
    · exact hb
    · exact ha

theorem not_readsBack_of_neighbour? (h0 : x.significand ≠ 0) (h : x.neighbour? grid = none) (n : ℕ) :
    ¬ x.readsBack (n * 10 ^ grid) := by
  have hstep : 0 < 10 ^ grid := Nat.pow_pos (by decide)
  have hmagnitude := readsBack_magnitude h0
  unfold neighbour? at h
  dsimp only [Nat.pow_eq] at h
  split at h
  · next hb ha =>
    intro hn
    rcases Nat.lt_or_ge x.magnitude (n * 10 ^ grid) with hlt | hge
    · have hle : x.magnitude / 10 ^ grid + 1 ≤ n := (Nat.div_lt_iff_lt_mul hstep).2 hlt
      have hnext : x.magnitude ≤ (x.magnitude / 10 ^ grid + 1) * 10 ^ grid :=
        (Nat.lt_mul_of_div_lt (Nat.lt_succ_self _) hstep).le
      rw [readsBack_between h0 hmagnitude hn hnext (Nat.mul_le_mul_right _ hle)] at ha
      exact nomatch ha
    · have hle : n ≤ x.magnitude / 10 ^ grid := (Nat.le_div_iff_mul_le hstep).2 hge
      rw [readsBack_between h0 hn hmagnitude (Nat.mul_le_mul_right _ hle)
        (Nat.div_mul_le_self _ _)] at hb
      exact nomatch hb
  · exact nomatch h
  · exact nomatch h
  · split at h <;> exact nomatch h

theorem firstHit_reads (h0 : x.significand ≠ 0) (limit : ℕ) :
    x.readsBack ((x.firstHit limit).1 * 10 ^ (x.firstHit limit).2) ∧
      ∀ g, (x.firstHit limit).2 < g → g ≤ limit → ∀ n, ¬ x.readsBack (n * 10 ^ g) := by
  induction limit with
  | zero =>
    refine ⟨?_, fun g hg hl => absurd hg (by omega)⟩
    rw [firstHit, pow_zero, mul_one]
    exact readsBack_magnitude h0
  | succ limit ih =>
    unfold firstHit
    cases hn : x.neighbour? (limit + 1) with
    | some digits =>
      exact ⟨readsBack_of_neighbour? hn, fun g hg hl => absurd hg (Nat.not_lt.2 hl)⟩
    | none =>
      refine ⟨ih.1, fun g hg hl => ?_⟩
      rcases Nat.lt_or_ge limit g with hlt | hge
      · obtain rfl : g = limit + 1 := by omega
        exact not_readsBack_of_neighbour? h0 hn
      · exact ih.2 g hg hge

theorem pos_of_readsBack (h0 : x.significand ≠ 0) {n : ℕ} (h : x.readsBack n) : 0 < n := by
  rw [readsBack_iff h0] at h
  have hpos := h.pos h0
  by_contra hn
  rw [Nat.eq_zero_of_not_pos hn, Nat.cast_zero, zero_div] at hpos
  exact lt_irrefl _ hpos

theorem le_two_mul_magnitude (h0 : x.significand ≠ 0) {n : ℕ} (h : x.readsBack n) :
    n ≤ 2 * x.magnitude := by
  have hle : 4 * n ≤ x.highEnd := by
    unfold readsBack at h
    split at h
    · exact (of_decide_eq_true h).2
    · exact (of_decide_eq_true h).2.le
  have hend : x.highEnd ≤ 8 * x.significand * x.unit :=
    Nat.mul_le_mul_right _ (by omega)
  have hassoc : 8 * x.significand * x.unit = 8 * x.magnitude := Nat.mul_assoc ..
  omega

theorem not_readsBack_of_length_lt (h0 : x.significand ≠ 0)
    (hg : (Nat.toDigits 10 x.magnitude).length < grid) (n : ℕ) :
    ¬ x.readsBack (n * 10 ^ grid) := by
  intro h
  have hn : 0 < n := Nat.pos_of_mul_pos_right (pos_of_readsBack h0 h)
  have hlt : x.magnitude < 10 ^ (Nat.toDigits 10 x.magnitude).length :=
    (Nat.length_toDigits_le_iff (by decide) Nat.length_toDigits_pos).1 le_rfl
  have hstep : 10 * 10 ^ (Nat.toDigits 10 x.magnitude).length ≤ 10 ^ grid := by
    rw [← pow_succ']
    exact Nat.pow_le_pow_right (by decide) hg
  have hle : 10 ^ grid ≤ n * 10 ^ grid := Nat.le_mul_of_pos_left _ hn
  have htwo := le_two_mul_magnitude h0 h
  omega

end Search

/-! The decimal that is found. -/

structure Coarsest (x : Binary64) (d : Decimal) : Prop where
  reads : x.ReadsBack d.value
  coarsest (e : ℤ) (he : d.exponent < e) (n : ℕ) : ¬ x.ReadsBack (n * 10 ^ e)

theorem readsBack_scaled (h0 : x.significand ≠ 0) (n grid : ℕ) :
    x.ReadsBack (n * 10 ^ ((grid : ℤ) - x.places)) ↔ x.readsBack (n * 10 ^ grid) := by
  rw [readsBack_iff h0, zpow_sub₀ (by norm_num), zpow_natCast, zpow_natCast]
  push_cast
  rw [mul_div_assoc]

theorem coarsest_shortest (h0 : x.significand ≠ 0) : x.Coarsest x.shortest := by
  obtain ⟨limit, hlimit⟩ : ∃ limit, limit = (Nat.toDigits 10 x.magnitude).length := ⟨_, rfl⟩
  have hshortest : x.shortest = ⟨(x.firstHit limit).1, ((x.firstHit limit).2 : ℤ) - x.places⟩ := by
    rw [shortest, if_neg h0, ← hlimit]
  obtain ⟨hreads, hnone⟩ := firstHit_reads h0 limit
  rw [hshortest]
  refine ⟨(readsBack_scaled h0 _ _).2 hreads, fun e he n => ?_⟩
  dsimp only at he
  obtain ⟨grid, hgrid⟩ : ∃ grid : ℕ, e = (grid : ℤ) - x.places :=
    ⟨(e + x.places).toNat, by omega⟩
  rw [hgrid, readsBack_scaled h0]
  rcases Nat.lt_or_ge limit grid with hlt | hge
  · exact not_readsBack_of_length_lt h0 (hlimit ▸ hlt) n
  · exact hnone grid (by omega) hge n

section Fewest

variable {d : Decimal}

theorem Coarsest.digits_mod_ten (h : x.Coarsest d) : d.digits % 10 ≠ 0 := by
  intro hmod
  have hreads := h.reads
  have hdigits : d.digits = d.digits / 10 * 10 := by omega
  rw [Decimal.value, hdigits, Nat.cast_mul, mul_assoc, Nat.cast_ofNat,
    ← zpow_one_add₀ (by norm_num)] at hreads
  exact h.coarsest _ (by omega) _ hreads

theorem Coarsest.digits_lt (h : x.Coarsest d) (h0 : x.significand ≠ 0) {m k : ℕ} {e : ℤ}
    (hr : x.ReadsBack (m * 10 ^ e)) (hm : m < 10 ^ k) : d.digits < 10 ^ k := by
  by_contra hge
  have hten : (0 : ℚ) < 10 := by norm_num
  have hk : k ≠ 0 := by
    rintro rfl
    have hpos := hr.pos h0
    rw [Nat.lt_one_iff.1 hm, Nat.cast_zero, zero_mul] at hpos
    exact lt_irrefl _ hpos
  rcases lt_or_ge d.exponent e with hlt | hle
  · exact h.coarsest e hlt m hr
  -- a power of ten lies between, and belongs to a coarser grid
  · have hlow : (m : ℚ) * 10 ^ e ≤ 10 ^ ((k : ℤ) + d.exponent) := by
      rw [zpow_add₀ hten.ne', zpow_natCast]
      exact mul_le_mul (by exact_mod_cast hm.le) (zpow_le_zpow_right₀ (by norm_num) hle)
        (by positivity) (by positivity)
    have hhigh : (10 : ℚ) ^ ((k : ℤ) + d.exponent) ≤ d.value := by
      rw [zpow_add₀ hten.ne', zpow_natCast]
      exact mul_le_mul_of_nonneg_right (by exact_mod_cast Nat.not_lt.1 hge) (by positivity)
    have hbetween := hr.between h.reads hlow hhigh
    rw [← one_mul ((10 : ℚ) ^ _), ← Nat.cast_one] at hbetween
    exact h.coarsest _ (by omega) 1 hbetween

end Fewest

end Binary64

end ValueStorage
