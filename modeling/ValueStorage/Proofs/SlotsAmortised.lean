import ValueStorage.Proofs.SlotsList
import ValueStorage.Proofs.SlotsSchedule

/-! What growing costs. Under a policy that at least doubles the capacity, fewer values are moved than
twice the number of values that were ever in the array. The cap may cut a growth short, but then no
other growth follows. -/

namespace ValueStorage.Slots

def granted (answers : List (Except Fault Answer)) : Nat :=
  answers.countP fun
    | .ok (.index _) => true
    | _ => false

theorem granted_cons (answer : Except Fault Answer) (answers : List (Except Fault Answer)) :
    granted (answer :: answers) = granted [answer] + granted answers := by
  change granted ([answer] ++ answers) = _
  exact List.countP_append

/-- The copies are paid for by the values that were ever in the array, of which there are `filled`.
The capacity that the last growth left behind was full, and it accounts for all copies so far. -/
inductive Paid (filled : Nat) (s : Slots) : Prop where
  | unmoved (grows : s.counters.grows.toNat = 0) (copied : s.counters.copied.toNat = 0)
  | moved (left : Nat) (capacity : left < s.capacity) (filled : left < filled)
      (copied : s.counters.copied.toNat ≤ 2 * left)
      (doubled : 2 * left ≤ s.capacity ∨ s.config.maxCapacity = some s.capacity)
      (grows : 1 ≤ s.counters.grows.toNat)
      (power : 2 ≤ s.counters.grows.toNat → 2 ^ (s.counters.grows.toNat - 2) ≤ left)

variable {filled : Nat} {s t : Slots}

theorem Paid.more (h : Paid filled s) (more : Nat) : Paid (filled + more) s := by
  cases h with
  | unmoved grows copied => exact .unmoved grows copied
  | moved left capacity filled copied doubled grows power =>
    exact .moved left capacity (Nat.lt_add_right more filled) copied doubled grows power

theorem Paid.with_values (h : Paid filled s) (values : Array Value) :
    Paid filled { s with values } := by
  cases h with
  | unmoved grows copied => exact .unmoved grows copied
  | moved left capacity filled copied doubled grows power =>
    exact .moved left capacity filled copied doubled grows power

theorem Paid.copied_fits (hs : Fits s) (h : Paid filled s) :
    s.counters.copied.toNat + s.size ≤ Word.max := by
  have hw : 3 * slotLimit ≤ Word.max := by decide
  have hsize : s.size ≤ s.capacity := hs.size_le
  have hlimit : s.capacity < slotLimit := hs.capacity_lt
  cases h with
  | unmoved grows copied => omega
  | moved left hleft _ copied doubled grows power => omega

theorem Paid.copied_moved (hs : Fits s) (h : Paid filled s) (capacity : Nat) :
    (s.moved capacity).counters.copied.toNat = s.counters.copied.toNat + s.size := by
  have hw : Word.max < UInt64.size := by decide
  have hfits : s.counters.copied.toNat + s.size ≤ Word.max := h.copied_fits hs
  rw [Slots.copied_moved, Nat.mod_eq_of_lt (by omega)]

theorem two_pow_le_of_twice {growths left capacity : Nat} (hg : 1 ≤ growths) (hc : left < capacity)
    (power : 2 ≤ growths → 2 ^ (growths - 2) ≤ left) (htwice : 2 * left ≤ capacity) :
    2 ^ (growths + 1 - 2) ≤ capacity := by
  rcases Nat.eq_or_lt_of_le hg with rfl | htwo
  · exact Nat.lt_of_le_of_lt (Nat.zero_le left) hc
  · have hsucc : growths + 1 - 2 = growths - 2 + 1 := by omega
    calc 2 ^ (growths + 1 - 2) = 2 * 2 ^ (growths - 2) := by
          rw [hsucc, Nat.pow_succ, Nat.mul_comm]
      _ ≤ 2 * left := Nat.mul_le_mul_left 2 (power htwo)
      _ ≤ capacity := htwice

theorem paid_grown (hs : Fits s) (hf : 2 ≤ s.config.growth.factor) (hsize : s.size ≤ filled)
    (hfull : s.size = s.capacity) (h : Paid filled s) (v : Value) {capacity : Nat}
    (hg : s.config.grownCapacity s.capacity = .ok capacity) :
    Paid (filled + 1) ((s.moved capacity).append v) := by
  obtain ⟨ha, _⟩ := SlotsConfig.grownCapacity_eq_ok.1 hg
  have hlt : s.capacity < capacity := SlotsConfig.lt_of_grownCapacity hg
  have hfilled : s.capacity < filled + 1 := by omega
  have hdoubled := SlotsConfig.doubled_or_capped hf ha
  have hcopied : ((s.moved capacity).append v).counters.copied.toNat =
      s.counters.copied.toNat + s.size := h.copied_moved hs capacity
  have hnext : ((s.moved capacity).append v).counters.grows.toNat =
      s.counters.grows.toNat + 1 := grows_moved hs capacity
  have hgrows : 1 ≤ ((s.moved capacity).append v).counters.grows.toNat := by omega
  cases h with
  | unmoved grows copied =>
    refine .moved s.capacity hlt hfilled ?_ hdoubled hgrows ?_
    · rw [hcopied]
      omega
    · intro htwo
      omega
  | moved left hleft _ copied doubled grows power =>
    have htwice : 2 * left ≤ s.capacity :=
      doubled.resolve_right (SlotsConfig.maxCapacity_ne_of_askedCapacity ha)
    refine .moved s.capacity hlt hfilled ?_ hdoubled hgrows ?_
    · rw [hcopied]
      omega
    · intro _
      rw [hnext]
      exact two_pow_le_of_twice grows hleft power htwice

theorem paid_effect {op : Operation} {answer : Except Fault Answer} (hs : Fits s)
    (hf : 2 ≤ s.config.growth.factor) (hsize : s.size ≤ filled) (h : Paid filled s)
    (he : Effect s op answer t) :
    t.size ≤ filled + granted [answer] ∧ Paid (filled + granted [answer]) t := by
  cases he with
  | kept op values hv hn =>
    refine ⟨?_, (h.more _).with_values values⟩
    exact Nat.le_trans hv (Nat.le_trans hsize (Nat.le_add_right _ _))
  | appended v hr =>
    change (s.append v).size ≤ filled + 1 ∧ Paid (filled + 1) (s.append v)
    rw [size_append]
    exact ⟨Nat.succ_le_succ hsize, (h.more 1).with_values _⟩
  | grown v capacity hfull hg =>
    change ((s.moved capacity).append v).size ≤ filled + 1 ∧ _
    rw [size_append]
    exact ⟨Nat.succ_le_succ hsize,
      paid_grown hs hf hsize (Nat.le_antisymm hs.size_le hfull) h v hg⟩

theorem paid_run (hs : Fits s) (hf : 2 ≤ s.config.growth.factor) (hsize : s.size ≤ filled)
    (h : Paid filled s) (ops : List Operation) :
    Paid (filled + granted (s.transcript ops)) (s.run ops) := by
  induction ops generalizing s filled with
  | nil => exact h
  | cons op ops ih =>
    have hc := change_step s op
    obtain ⟨hsize', hpaid⟩ := paid_effect hs hf hsize h (effect_step s op)
    have hf' : 2 ≤ (s.step op).state.config.growth.factor := by
      rw [hc.config_eq]
      exact hf
    have hrest := ih (fits_change hs hc) hf' hsize' hpaid
    rw [transcript, granted_cons, ← Nat.add_assoc]
    exact hrest

theorem paid_make {origin : Origin} {made : Slots × List TraceEvent}
    (h : origin.make = .ok made) (filled : Nat) : Paid filled made.1 := by
  refine .unmoved ?_ ?_
  · rw [counters_make h]
    rfl
  · rw [counters_make h]
    rfl

/-- If the policy at least doubles the capacity, then after any operations fewer values have been moved
than twice the number of those reserved at first and those pushed, and, once the array has grown, than
twice the capacity. The capacity is exponential in the number of growths, so there are few of them, and
what the next growth has to move can always be added to the counter of copies without wrapping. -/
theorem copies_amortise {origin : Origin} {made : Slots × List TraceEvent}
    (h : origin.make = .ok made) (hf : 2 ≤ origin.config.growth.factor) (ops : List Operation) :
    let s := made.1.run ops
    let pushes := granted (made.1.transcript ops)
    (1 ≤ pushes → s.counters.copied.toNat < 2 * (origin.values.length + pushes)) ∧
      (1 ≤ s.counters.grows.toNat → s.counters.copied.toNat < 2 * s.capacity) ∧
      (2 ≤ s.counters.grows.toNat → 2 ^ (s.counters.grows.toNat - 2) < s.capacity) ∧
      s.counters.grows.toNat ≤ 64 ∧ s.counters.copied.toNat + s.size ≤ Word.max := by
  intro s pushes
  have hf' : 2 ≤ made.1.config.growth.factor := by
    rw [config_make h]
    exact hf
  have hsize : made.1.size = origin.values.length := by
    rw [size_eq_length, values_make h]
  have hpaid : Paid (origin.values.length + pushes) s :=
    paid_run (fits_make h) hf' (Nat.le_of_eq hsize) (paid_make h _) ops
  have hs : Fits s := fits_run (fits_make h) ops
  have hword : s.counters.copied.toNat + s.size ≤ Word.max := hpaid.copied_fits hs
  have hlimit : s.capacity < slotLimit := hs.capacity_lt
  cases hpaid with
  | unmoved grows copied =>
    refine ⟨fun _ => ?_, fun _ => ?_, fun _ => ?_, ?_, hword⟩ <;> omega
  | moved left capacity filled copied doubled grows power =>
    have hpow : 2 ≤ s.counters.grows.toNat → 2 ^ (s.counters.grows.toNat - 2) < s.capacity :=
      fun htwo => Nat.lt_of_le_of_lt (power htwo) capacity
    refine ⟨fun _ => ?_, fun _ => ?_, hpow, ?_, hword⟩
    · omega
    · omega
    · refine Nat.le_of_not_lt fun hmany => ?_
      have hpower : 2 ^ 59 ≤ 2 ^ (s.counters.grows.toNat - 2) :=
        Nat.pow_le_pow_right (by decide) (by omega)
      have hbound := hpow (by omega)
      have hl : slotLimit = 2 ^ 59 := by decide
      omega

theorem copies_amortise_capped :
    let origin : Origin := .create 1 2 { growth := ⟨0, 2⟩, maxCapacity := some 5 }
    let ops : List Operation := [.push (.int 1), .push (.int 2), .push (.int 3), .push (.int 4),
      .push (.int 5), .copy .copy, .clear]
    ∃ made, origin.make = .ok made ∧ 2 ≤ origin.config.growth.factor ∧
      let s := made.1.run ops
      let pushes := granted (made.1.transcript ops)
      s.counters = ⟨2, 6⟩ ∧ pushes = 4 ∧
        (1 ≤ pushes → s.counters.copied.toNat < 2 * (origin.values.length + pushes)) ∧
        (1 ≤ s.counters.grows.toNat → s.counters.copied.toNat < 2 * s.capacity) ∧
        (2 ≤ s.counters.grows.toNat → 2 ^ (s.counters.grows.toNat - 2) < s.capacity) ∧
        s.counters.grows.toNat ≤ 64 ∧ s.counters.copied.toNat + s.size ≤ Word.max :=
  ⟨_, rfl, by decide, rfl, rfl, copies_amortise rfl (by decide) _⟩

end ValueStorage.Slots
