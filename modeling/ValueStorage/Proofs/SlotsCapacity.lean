import ValueStorage.Proofs.SlotsRun

/-! What holds of the slots of an array along every run. They suffice for the values, stay below the
limit of memory and within the cap, and are never given back, so that an array can always be filled
again up to where it has been before. Every growth has given one slot at least, so that the counter of
growths, which is a word, never wraps. -/

namespace ValueStorage.Slots

structure Fits (s : Slots) : Prop where
  size_le : s.size ≤ s.capacity
  capacity_lt : s.capacity < slotLimit
  capacity_le (most : Nat) (h : s.config.maxCapacity = some most) : s.capacity ≤ most
  grows_le : s.counters.grows.toNat ≤ s.capacity

theorem grows_moved {s : Slots} (hs : Fits s) (capacity : Nat) :
    (s.moved capacity).counters.grows.toNat = s.counters.grows.toNat + 1 := by
  have hlimit : slotLimit < UInt64.size := by decide
  have hlt : s.counters.grows.toNat < slotLimit := Nat.lt_of_le_of_lt hs.grows_le hs.capacity_lt
  calc (s.moved capacity).counters.grows.toNat
      = (s.counters.grows.toNat + 1) % UInt64.size := UInt64.toNat_add _ 1
    _ = s.counters.grows.toNat + 1 := Nat.mod_eq_of_lt (by omega)

theorem copied_moved (s : Slots) (capacity : Nat) :
    (s.moved capacity).counters.copied.toNat =
      (s.counters.copied.toNat + s.size) % UInt64.size := by
  calc (s.moved capacity).counters.copied.toNat
      = (s.counters.copied.toNat + s.size % UInt64.size) % UInt64.size := UInt64.toNat_add _ _
    _ = (s.counters.copied.toNat + s.size) % UInt64.size := Nat.add_mod_mod _ _ _

theorem slotLimit_lt_max : slotLimit < Word.max := by decide

theorem config_make {origin : Origin} {made : Slots × List TraceEvent}
    (h : origin.make = .ok made) : made.1.config = origin.config := by
  cases origin with
  | empty config =>
    cases h
    rfl
  | create count capacity config =>
    obtain ⟨_, _, _, rfl⟩ := create_eq_ok.1 h
    rfl

theorem counters_make {origin : Origin} {made : Slots × List TraceEvent}
    (h : origin.make = .ok made) : made.1.counters = {} := by
  cases origin with
  | empty config =>
    cases h
    rfl
  | create count capacity config =>
    obtain ⟨_, _, _, rfl⟩ := create_eq_ok.1 h
    rfl

theorem fits_make {origin : Origin} {made : Slots × List TraceEvent}
    (h : origin.make = .ok made) : Fits made.1 := by
  cases origin with
  | empty config =>
    cases h
    have hz : 0 < slotLimit := by decide
    exact ⟨Nat.le_refl 0, hz, fun most _ => Nat.zero_le most, Nat.le_refl 0⟩
  | create count capacity config =>
    obtain ⟨hc, hm, hl, rfl⟩ := create_eq_ok.1 h
    refine ⟨?_, hl, hm, Nat.zero_le capacity⟩
    simpa [size] using hc

theorem fits_change {s t : Slots} (hs : Fits s) (h : Change s t) : Fits t := by
  cases h with
  | kept values h => exact ⟨Nat.le_trans h hs.size_le, hs.capacity_lt, hs.capacity_le, hs.grows_le⟩
  | appended v h =>
    refine ⟨?_, hs.capacity_lt, hs.capacity_le, hs.grows_le⟩
    rw [size_append]
    exact h
  | grown v capacity h granted =>
    obtain ⟨ha, hl⟩ := SlotsConfig.grownCapacity_eq_ok.1 granted
    have hlt : s.capacity < capacity := SlotsConfig.lt_of_grownCapacity granted
    have hle : s.size ≤ s.capacity := hs.size_le
    refine ⟨?_, hl, fun most hm => ?_, ?_⟩
    · rw [size_append]
      change s.size + 1 ≤ capacity
      omega
    · obtain ⟨wanted, _, _, rfl⟩ := SlotsConfig.askedCapacity_eq_ok.1 ha
      exact SlotsConfig.capped_le hm wanted
    · change (s.moved capacity).counters.grows.toNat ≤ capacity
      rw [grows_moved hs]
      exact Nat.le_trans (Nat.succ_le_succ hs.grows_le) hlt

theorem fits_run {s : Slots} (hs : Fits s) (ops : List Operation) : Fits (s.run ops) :=
  run_induction (fun _ _ => fits_change) hs ops

theorem Change.capacity_le {s t : Slots} (h : Change s t) : s.capacity ≤ t.capacity := by
  cases h with
  | kept values h => exact Nat.le_refl _
  | appended v h => exact Nat.le_refl _
  | grown v capacity h granted =>
    exact Nat.le_of_lt (SlotsConfig.lt_of_grownCapacity granted)

theorem capacity_le_run (s : Slots) (ops : List Operation) : s.capacity ≤ (s.run ops).capacity :=
  run_induction (P := fun t => s.capacity ≤ t.capacity)
    (fun _ _ h hc => Nat.le_trans h hc.capacity_le) (Nat.le_refl _) ops

theorem push_of_size_lt {s : Slots} (hs : Fits s) {ops : List Operation}
    (h : (s.run ops).size < s.size) (v : Value) :
    (s.run ops).push v = ⟨(s.run ops).append v, .ok (s.run ops).size,
      (s.run ops).config.reported [.write (s.run ops).size v]⟩ := by
  apply push_of_room
  calc (s.run ops).size < s.size := h
    _ ≤ s.capacity := hs.size_le
    _ ≤ (s.run ops).capacity := capacity_le_run s ops

/-- At any point of a run the slots suffice for the values and stay within all bounds, no operation
gives slots back, and neither the size nor what a growth asks for beyond it leaves the range of a
word. At any later point a push below the size of now only writes: it neither fails nor grows, and
capacity and counters stay as they are. -/
theorem run_fits_and_refills {origin : Origin} {made : Slots × List TraceEvent}
    (h : origin.make = .ok made) (earlier : List Operation) :
    let s := made.1.run earlier
    s.config = origin.config ∧ Fits s ∧ (∀ op, s.capacity ≤ (s.step op).state.capacity) ∧
      s.size + 1 ≤ Word.max ∧
      (∀ asked, s.config.askedCapacity s.capacity = .ok asked → s.size ≤ asked) ∧
      ∀ later v, (s.run later).size < s.size →
        (s.run later).push v = ⟨(s.run later).append v, .ok (s.run later).size,
          (s.run later).config.reported [.write (s.run later).size v]⟩ ∧
        ((s.run later).push v).state.values = (s.run later).values.push v ∧
        ((s.run later).push v).state.capacity = (s.run later).capacity ∧
        ((s.run later).push v).state.counters = (s.run later).counters := by
  intro s
  have hs : Fits s := fits_run (fits_make h) earlier
  have hc : s.config = origin.config := (config_run _ _).trans (config_make h)
  have hle : s.size ≤ s.capacity := hs.size_le
  have hlt : s.capacity < slotLimit := hs.capacity_lt
  have hw : slotLimit < Word.max := slotLimit_lt_max
  refine ⟨hc, hs, ?_, ?_, ?_, ?_⟩
  · intro op
    exact (change_step s op).capacity_le
  · omega
  -- what is asked for exceeds the capacity, and the capacity is at least the size
  · intro asked ha
    have hg : s.capacity < asked := SlotsConfig.lt_of_askedCapacity ha
    exact Nat.le_trans hle (Nat.le_of_lt hg)
  · intro later v hk
    have hp := push_of_size_lt hs hk v
    refine ⟨hp, ?_⟩
    rw [hp]
    exact ⟨rfl, rfl, rfl⟩

theorem run_fits_and_refills_capped :
    let origin : Origin := .create 1 2 { growth := ⟨5, 0⟩, maxCapacity := some 3 }
    let earlier : List Operation := [.push (.int 1), .push (.int 2)]
    ∃ made, origin.make = .ok made ∧
      let s := made.1.run earlier
      s.config = origin.config ∧ Fits s ∧ (∀ op, s.capacity ≤ (s.step op).state.capacity) ∧
        s.size + 1 ≤ Word.max ∧
        (∀ asked, s.config.askedCapacity s.capacity = .ok asked → s.size ≤ asked) ∧
        (s.run [.clear]).size < s.size ∧
        (s.run [.clear]).push (.int 3) = ⟨(s.run [.clear]).append (.int 3), .ok 0, []⟩ ∧
        ((s.run [.clear]).push (.int 3)).state.values = (s.run [.clear]).values.push (.int 3) ∧
        ((s.run [.clear]).push (.int 3)).state.capacity = (s.run [.clear]).capacity ∧
        ((s.run [.clear]).push (.int 3)).state.counters = (s.run [.clear]).counters := by
  refine ⟨_, rfl, ?_⟩
  obtain ⟨hc, hs, hm, hw, ha, hp⟩ := @run_fits_and_refills
    (.create 1 2 { growth := ⟨5, 0⟩, maxCapacity := some 3 }) _ rfl
    [.push (.int 1), .push (.int 2)]
  exact ⟨hc, hs, hm, hw, ha, by decide, hp [.clear] (.int 3) (by decide)⟩

end ValueStorage.Slots
