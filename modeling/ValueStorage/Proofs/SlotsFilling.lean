import ValueStorage.Proofs.SlotsCapacity

/-! Arrays with a cap. As long as a word holds the cap times the growth factor, whatever the policy
is, an array takes values up to the cap exactly: no slot below it is lost and none above it given. -/

namespace ValueStorage

/-- The cap can be reached: so many slots can be had, and no product on the way overflows. -/
structure SlotsConfig.FillableTo (c : SlotsConfig) (most : Nat) : Prop where
  cap : c.maxCapacity = some most
  lt_slotLimit : most < slotLimit
  product_le : most * c.growth.factor ≤ Word.max

namespace Slots

variable {s : Slots} {most : Nat}

theorem exists_grownCapacity {c : SlotsConfig} {old : Nat} (hc : c.FillableTo most)
    (ho : old < most) : ∃ new, c.grownCapacity old = .ok new := by
  have hl := hc.lt_slotLimit
  have hw := slotLimit_lt_max
  have hp : old * c.growth.factor ≤ Word.max :=
    calc old * c.growth.factor ≤ most * c.growth.factor :=
          Nat.mul_le_mul_right _ (Nat.le_of_lt ho)
      _ ≤ Word.max := hc.product_le
  have hn := GrowthPolicy.next?_eq_some.2 ⟨show old + 1 ≤ Word.max by omega, hp, rfl⟩
  have hm : ∀ m, c.maxCapacity = some m → old < m := by
    intro m hm
    cases hc.cap.symm.trans hm
    exact ho
  refine ⟨_, SlotsConfig.grownCapacity_eq_ok.2
    ⟨SlotsConfig.askedCapacity_eq_ok.2 ⟨_, hn, hm, rfl⟩, ?_⟩⟩
  exact Nat.lt_of_le_of_lt (SlotsConfig.capped_le hc.cap _) hl

theorem push_of_lt_cap (hc : s.config.FillableTo most) (h : s.size < most) (v : Value) :
    (s.push v).answer = .ok s.size ∧ (s.push v).state.values = s.values.push v := by
  rcases Nat.lt_or_ge s.size s.capacity with hr | hf
  · rw [push_of_room v hr]
    exact ⟨rfl, rfl⟩
  -- a full array below its cap has a capacity below the cap as well, and grows
  · have hlt : s.capacity < most := Nat.lt_of_le_of_lt hf h
    obtain ⟨capacity, hg⟩ := exists_grownCapacity hc hlt
    rw [push_of_full v hf hg]
    exact ⟨rfl, rfl⟩

theorem push_of_cap_le (hs : Fits s) (hc : s.config.maxCapacity = some most) (h : most ≤ s.size)
    (v : Value) : ∃ requested, s.push v = .refuse s (.outOfMemory requested "slots" most) := by
  have hf : s.capacity ≤ s.size := Nat.le_trans (hs.capacity_le most hc) h
  have hle : s.size ≤ s.capacity := hs.size_le
  rcases s.push_cases v with ⟨hr, _⟩ | ⟨capacity, _, hg, _⟩ | ⟨requested, _, hp⟩
  · exact absurd hr (Nat.not_lt.2 hf)
  -- a growth was granted, so the capacity, and with it the size, was below the cap
  · obtain ⟨ha, _⟩ := SlotsConfig.grownCapacity_eq_ok.1 hg
    obtain ⟨_, _, hm, _⟩ := SlotsConfig.askedCapacity_eq_ok.1 ha
    have hlt : s.capacity < most := hm most hc
    omega
  · rw [hp, SlotsConfig.outOfMemory, hc]
    exact ⟨requested, rfl⟩

theorem push_isOk_iff (hs : Fits s) (hc : s.config.FillableTo most) (v : Value) :
    (∃ index, (s.push v).answer = .ok index) ↔ s.size < most := by
  refine ⟨fun ⟨index, hi⟩ => Nat.lt_of_not_le fun hn => ?_,
    fun h => ⟨s.size, (push_of_lt_cap hc h v).1⟩⟩
  obtain ⟨requested, hp⟩ := push_of_cap_le hs hc.cap hn v
  rw [hp] at hi
  exact nomatch hi

theorem run_pushes (hc : s.config.FillableTo most) (vs : List Value)
    (hv : s.size + vs.length ≤ most) :
    (s.run (vs.map .push)).values.toList = s.values.toList ++ vs ∧
      s.transcript (vs.map .push) = (List.range' s.size vs.length).map (.ok ∘ .index) := by
  induction vs generalizing s with
  | nil => exact ⟨(List.append_nil _).symm, rfl⟩
  | cons v vs ih =>
    rw [List.length_cons] at hv
    obtain ⟨ha, hp⟩ := push_of_lt_cap hc (show s.size < most by omega) v
    have hsize : (s.push v).state.size = s.size + 1 := by rw [size, hp, Array.size_push, size]
    have hconfig : (s.push v).state.config.FillableTo most := by
      rw [(change_push s v).config_eq]
      exact hc
    obtain ⟨hvalues, hanswers⟩ := ih hconfig (by omega)
    constructor
    · change ((s.push v).state.run _).values.toList = _
      rw [hvalues, hp, Array.toList_push, List.append_assoc, List.singleton_append]
    · change (s.push v).answer.map _ :: (s.push v).state.transcript _ = _
      rw [hanswers, ha, hsize]
      rfl

theorem size_le_step {op : Operation} (hp : op ≠ .pop) (hc : op ≠ .clear) :
    s.size ≤ (s.step op).state.size := by
  cases op with
  | push v =>
    change s.size ≤ (s.push v).state.size
    rcases s.push_cases v with ⟨hr, hp⟩ | ⟨capacity, hf, hg, hp⟩ | ⟨requested, hf, hp⟩
    · rw [hp, size_append]
      exact Nat.le_succ s.size
    · rw [hp, size_append]
      exact Nat.le_succ s.size
    · rw [hp]
      exact Nat.le_refl _
  | set index v =>
    change s.size ≤ (s.set index v).state.size
    unfold Slots.set
    cases s.get index with
    | error fault => exact Nat.le_refl _
    | ok previous => simp [size]
  | pop => exact absurd rfl hp
  | clear => exact absurd rfl hc
  | copy branch => cases branch <;> exact Nat.le_refl _
  | get | peek => exact Nat.le_refl _

theorem size_le_run {ops : List Operation} (h : ∀ op ∈ ops, op ≠ .pop ∧ op ≠ .clear) :
    s.size ≤ (s.run ops).size := by
  induction ops generalizing s with
  | nil => exact Nat.le_refl _
  | cons op ops ih =>
    obtain ⟨hp, hc⟩ := h op (List.mem_cons_self ..)
    exact Nat.le_trans (size_le_step hp hc) (ih fun o ho => h o (List.mem_cons_of_mem op ho))

/-- Under a cap that can be reached, a push is granted exactly as long as there are fewer values than
the cap says. So the array takes as many more as are missing and then has as many slots as the cap
allows, and it refuses all further ones, unchanged, until values are taken away. -/
theorem fills_exactly_to_cap {origin : Origin} {made : Slots × List TraceEvent}
    (h : origin.make = .ok made) (hm : origin.config.maxCapacity = some most)
    (hl : most < slotLimit) (hf : most * origin.config.growth.factor ≤ Word.max)
    (ops : List Operation) :
    let s := made.1.run ops
    (∀ v, (∃ index, (s.push v).answer = .ok index) ↔ s.size < most) ∧ s.size ≤ most ∧
      ∀ vs : List Value, s.size + vs.length = most →
        let full := s.run (vs.map .push)
        s.transcript (vs.map .push) = (List.range' s.size vs.length).map (.ok ∘ .index) ∧
          full.values.toList = s.values.toList ++ vs ∧ full.capacity = most ∧
          ∀ later, (∀ op ∈ later, op ≠ .pop ∧ op ≠ .clear) → ∀ v, ∃ requested,
            (full.run later).push v =
              .refuse (full.run later) (.outOfMemory requested "slots" most) := by
  intro s
  have hs : Fits s := fits_run (fits_make h) ops
  have hconfig : s.config = origin.config := (config_run _ _).trans (config_make h)
  have hc : s.config.FillableTo most := by
    rw [hconfig]
    exact ⟨hm, hl, hf⟩
  have hle : s.size ≤ most := Nat.le_trans hs.size_le (hs.capacity_le most hc.cap)
  refine ⟨push_isOk_iff hs hc, hle, fun vs hv => ?_⟩
  intro full
  obtain ⟨hvalues, hanswers⟩ := run_pushes hc vs (Nat.le_of_eq hv)
  have hfull : Fits full := fits_run hs _
  have hcap (t : List Operation) : (full.run t).config.maxCapacity = some most := by
    rw [config_run, config_run]
    exact hc.cap
  have hsize : full.size = most := by
    rw [size_eq_length, hvalues, List.length_append, ← size_eq_length]
    exact hv
  refine ⟨hanswers, hvalues, ?_, fun later hlater v => ?_⟩
  · exact Nat.le_antisymm (hfull.capacity_le most (hcap [])) (hsize ▸ hfull.size_le)
  · exact push_of_cap_le (fits_run hfull later) (hcap later) (hsize ▸ size_le_run hlater) v

theorem fills_exactly_to_cap_two :
    let origin : Origin := .empty { growth := ⟨900, 0⟩, maxCapacity := some 2 }
    ∃ made, origin.make = .ok made ∧ origin.config.maxCapacity = some 2 ∧ 2 < slotLimit ∧
      2 * origin.config.growth.factor ≤ Word.max ∧
      let s := made.1.run [.push (.int 1)]
      let full := s.run [.push (.int 2)]
      ((∃ index, (s.push (.int 2)).answer = .ok index) ↔ s.size < 2) ∧ s.size + 1 = 2 ∧
        s.transcript [.push (.int 2)] = [.ok (.index 1)] ∧ full.capacity = 2 ∧
        ∃ requested, (full.run [.set 0 (.int 3)]).push (.int 4) =
          .refuse (full.run [.set 0 (.int 3)]) (.outOfMemory requested "slots" (some 2)) := by
  refine ⟨_, rfl, rfl, by decide, by decide, ?_⟩
  obtain ⟨hi, _, hfill⟩ := @fills_exactly_to_cap 2
    (.empty { growth := ⟨900, 0⟩, maxCapacity := some 2 }) _ rfl rfl (by decide) (by decide)
    [.push (.int 1)]
  obtain ⟨ha, _, hc, hr⟩ := hfill [.int 2] rfl
  exact ⟨hi (.int 2), rfl, ha, hc, hr [.set 0 (.int 3)] (by simp) (.int 4)⟩

end Slots

end ValueStorage
