import ValueStorage.Proofs.SlotsCapacity

/-! Why arrays refuse. A creation is refused if more slots are to be filled than there are. Every other
refusal is for want of memory, and then the number of slots it names is one that the cap or the memory
rules out, whichever check it was that failed. -/

namespace ValueStorage

namespace SlotsConfig

def RulesOut (c : SlotsConfig) (slots : Nat) : Prop :=
  (∃ most, c.maxCapacity = some most ∧ most < slots) ∨ slotLimit ≤ slots

variable {c : SlotsConfig} {old : Nat} {fault : Fault}

theorem not_rulesOut {slots : Nat} : ¬ c.RulesOut slots ↔
    (∀ most, c.maxCapacity = some most → slots ≤ most) ∧ slots < slotLimit := by
  simp only [RulesOut, not_or, not_exists, not_and, Nat.not_lt, Nat.not_le]

theorem askedCapacity_eq_error (ho : old < slotLimit) (h : c.askedCapacity old = .error fault) :
    ∃ requested, fault = c.outOfMemory requested ∧ old < requested ∧ c.RulesOut requested := by
  cases hn : c.growth.next? old with
  -- a word cannot hold the next capacity, and it holds more slots than there can be
  | none =>
    have hw : slotLimit < Word.max := Slots.slotLimit_lt_max
    have hf : c.askedCapacity old = .error (c.outOfMemory Word.max) := by
      rw [askedCapacity, hn]
    refine ⟨Word.max, ?_, Nat.lt_trans ho hw, .inr (Nat.le_of_lt hw)⟩
    exact Except.error.inj (h.symm.trans hf)
  | some wanted =>
    by_cases hc : ∀ most, c.maxCapacity = some most → old < most
    · cases h.symm.trans (askedCapacity_eq_ok.2 ⟨wanted, hn, hc, rfl⟩)
    -- the cap is reached, so every larger capacity is beyond it
    · obtain ⟨most, hm, hle⟩ : ∃ most, c.maxCapacity = some most ∧ most ≤ old := by
        simpa using hc
      have hf : c.askedCapacity old = .error (c.outOfMemory wanted) := by
        simp [askedCapacity, hn, hm, hle]
      have hlt : old < wanted := GrowthPolicy.lt_of_next? hn
      refine ⟨wanted, ?_, hlt, .inl ⟨most, hm, Nat.lt_of_le_of_lt hle hlt⟩⟩
      exact Except.error.inj (h.symm.trans hf)

theorem grownCapacity_eq_error (ho : old < slotLimit) (h : c.grownCapacity old = .error fault) :
    ∃ requested, fault = c.outOfMemory requested ∧ old < requested ∧ c.RulesOut requested := by
  unfold grownCapacity at h
  cases ha : c.askedCapacity old with
  | error refusal =>
    rw [ha] at h
    cases h
    exact askedCapacity_eq_error ho ha
  | ok asked =>
    rw [ha] at h
    change c.reserve asked = .error fault at h
    unfold reserve at h
    split at h
    · next hl => exact ⟨asked, (Except.error.inj h).symm, lt_of_askedCapacity ha, .inr hl⟩
    · exact nomatch h

end SlotsConfig

namespace Slots

theorem create_cases (count capacity : Nat) (config : SlotsConfig) :
    (capacity < count ∧
      create count capacity config = .error (.invalidCapacity count capacity)) ∨
    (count ≤ capacity ∧ config.RulesOut capacity ∧
      create count capacity config = .error (config.outOfMemory capacity)) ∨
    (count ≤ capacity ∧ ¬ config.RulesOut capacity ∧
      ∃ made, create count capacity config = .ok made) := by
  rcases Nat.lt_or_ge capacity count with hlt | hle
  · exact .inl ⟨hlt, if_pos hlt⟩
  by_cases hr : config.RulesOut capacity
  · refine .inr (.inl ⟨hle, hr, (if_neg (Nat.not_lt.2 hle)).trans ?_⟩)
    by_cases hm : ∀ most, config.maxCapacity = some most → capacity ≤ most
    -- it is not the cap that rules the capacity out
    · have hl : slotLimit ≤ capacity :=
        Nat.not_lt.1 fun hl => SlotsConfig.not_rulesOut.2 ⟨hm, hl⟩ hr
      have hc : ¬ config.maxCapacity.any (· < capacity) = true := fun h => Word.any_lt_iff.1 h hm
      rw [if_neg hc, SlotsConfig.reserve, if_pos hl]
      rfl
    · exact if_pos (Word.any_lt_iff.2 hm)
  · obtain ⟨hm, hl⟩ := SlotsConfig.not_rulesOut.1 hr
    exact .inr (.inr ⟨hle, hr, _, create_eq_ok.2 ⟨hle, hm, hl, rfl⟩⟩)

theorem push_eq_error {s : Slots} (hs : Fits s) {v : Value} {fault : Fault}
    (h : (s.push v).answer = .error fault) :
    s.size = s.capacity ∧ ∃ requested, fault = s.config.outOfMemory requested ∧
      s.capacity < requested ∧ s.config.RulesOut requested := by
  rcases Nat.lt_or_ge s.size s.capacity with hr | hf
  · rw [push_of_room v hr] at h
    exact nomatch h
  · refine ⟨Nat.le_antisymm hs.size_le hf, ?_⟩
    cases hg : s.config.grownCapacity s.capacity with
    | ok capacity =>
      rw [push_of_full v hf hg] at h
      exact nomatch h
    | error refusal =>
      rw [push_of_refused v hf hg] at h
      cases h
      exact SlotsConfig.grownCapacity_eq_error hs.capacity_lt hg

/-- A creation is refused as invalid exactly if more slots are to be filled than there are, and otherwise
for want of memory exactly if the cap or the memory rules its slots out; it is refused for nothing
else. After any operations a push is refused only by a full array, and for want of memory. It names
the cap, if there is one, and a number of slots beyond the present ones which is ruled out. -/
theorem refusals_are_justified :
    (∀ count capacity config,
      (create count capacity config = .error (.invalidCapacity count capacity) ↔
        capacity < count) ∧
      (create count capacity config = .error (.outOfMemory capacity "slots" config.maxCapacity) ↔
        count ≤ capacity ∧ config.RulesOut capacity) ∧
      ∀ fault, create count capacity config = .error fault →
        fault = .invalidCapacity count capacity ∨
          fault = .outOfMemory capacity "slots" config.maxCapacity) ∧
    ∀ (origin : Origin) made, origin.make = .ok made → ∀ ops v fault,
      let s := made.1.run ops
      (s.push v).answer = .error fault →
        s.size = s.capacity ∧
        ∃ requested, fault = .outOfMemory requested "slots" origin.config.maxCapacity ∧
          s.capacity < requested ∧ origin.config.RulesOut requested := by
  constructor
  · intro count capacity config
    have houtOfMemory : config.outOfMemory capacity =
        .outOfMemory capacity "slots" config.maxCapacity := rfl
    rcases create_cases count capacity config with ⟨hlt, hc⟩ | ⟨hle, hr, hc⟩ | ⟨hle, hr, made, hc⟩
    · simp [hc, hlt, Nat.not_le.2 hlt]
    · simp [hc, hle, hr, houtOfMemory]
    · simp [hc, hle, hr]
  · intro origin made hmade ops v fault s h
    have hconfig : s.config = origin.config := (config_run _ _).trans (config_make hmade)
    rw [← hconfig]
    exact push_eq_error (fits_run (fits_make hmade) ops) h

theorem refusals_are_justified_overflow :
    let config : SlotsConfig := { growth := ⟨8, 0x8000000000000000⟩, maxCapacity := some 5 }
    let origin : Origin := .create 1 2 config
    ∃ made, create 7 6 config = .error (.invalidCapacity 7 6) ∧
      create 6 6 config = .error (.outOfMemory 6 "slots" (some 5)) ∧
      (∀ fault, create 6 6 config = .error fault →
        fault = .invalidCapacity 6 6 ∨ fault = .outOfMemory 6 "slots" (some 5)) ∧
      origin.make = .ok made ∧
      let s := made.1.run [.push (.int 1)]
      (s.push (.int 2)).answer = .error (.outOfMemory Word.max "slots" (some 5)) ∧
      s.size = s.capacity ∧
      ∃ requested, Fault.outOfMemory Word.max "slots" (some 5) =
          .outOfMemory requested "slots" origin.config.maxCapacity ∧
        s.capacity < requested ∧ origin.config.RulesOut requested := by
  intro config origin
  obtain ⟨hcreate, hpush⟩ := refusals_are_justified
  obtain ⟨hinvalid, _, _⟩ := hcreate 7 6 config
  obtain ⟨_, hdenied, hother⟩ := hcreate 6 6 config
  have hruled : config.RulesOut 6 := .inl ⟨5, rfl, by decide⟩
  refine ⟨_, hinvalid.2 (by decide), hdenied.2 ⟨Nat.le_refl 6, hruled⟩, hother, rfl, by cbv, ?_⟩
  exact hpush origin _ rfl [.push (.int 1)] (.int 2) _ (by cbv)

end Slots

end ValueStorage
