import ValueStorage.Pool
import ValueStorage.Proofs.SlotsFilling

/-! Pools that are filled. Two bounds stand against one more constant: the pool wants to address it
by a byte, and its slots may have a cap. The smaller of them says how many constants are taken, and
the fault with which all others are refused tells which of them it was. -/

namespace ValueStorage.Pool

open Slots (Fits)

def addAll : Pool → List Value → Pool
  | p, [] => p
  | p, v :: vs => (p.add v).state.addAll vs

def answers : Pool → List Value → List (Except Fault UInt8)
  | _, [] => []
  | p, v :: vs => (p.add v).answer :: (p.add v).state.answers vs

/-- How many constants a pool takes: one for each byte, or as many as its slots can be. -/
def admitted (config : SlotsConfig) : Nat := min most (config.maxCapacity.getD most)

/-- Whatever a policy asks for while a pool fills can be had. -/
structure Affordable (config : SlotsConfig) : Prop where
  block_lt : config.growth.minimumBlock < slotLimit
  product_lt : 255 * config.growth.factor < slotLimit

variable {config : SlotsConfig} {p : Pool}

theorem Affordable.next? (h : Affordable config) {old : Nat} (ho : old < most) :
    ∃ wanted, config.growth.next? old = some wanted ∧ old < wanted ∧ wanted < slotLimit := by
  have hb : config.growth.minimumBlock < slotLimit := h.block_lt
  have hw : slotLimit < Word.max := Slots.slotLimit_lt_max
  have hold : old + 1 < slotLimit := Nat.lt_of_le_of_lt ho (by decide)
  have hp : old * config.growth.factor < slotLimit :=
    calc old * config.growth.factor ≤ 255 * config.growth.factor :=
          Nat.mul_le_mul_right _ (Nat.le_of_lt_succ ho)
      _ < slotLimit := h.product_lt
  have hn := GrowthPolicy.next?_eq_some.2
    ⟨show old + 1 ≤ Word.max by omega, show old * config.growth.factor ≤ Word.max by omega, rfl⟩
  exact ⟨_, hn, GrowthPolicy.lt_of_next? hn, by omega⟩

structure Filling (config : SlotsConfig) (p : Pool) : Prop where
  config_eq : p.constants.config = config
  fits : Fits p.constants

theorem filling_empty (config : SlotsConfig) : Filling config (empty config) :=
  ⟨rfl, @Slots.fits_make (.empty config) _ rfl⟩

theorem Filling.add (h : Filling config p) (v : Value) : Filling config (p.add v).state := by
  rcases Nat.lt_or_ge p.size most with hr | hf
  · have hc : Slots.Change p.constants (p.constants.push v).state := Slots.change_push _ v
    rw [add_of_room hr]
    exact ⟨hc.config_eq.trans h.config_eq, Slots.fits_change h.fits hc⟩
  · rw [add_of_full hf]
    exact h

theorem Filling.addAll (h : Filling config p) (vs : List Value) :
    Filling config (p.addAll vs) := by
  induction vs generalizing p with
  | nil => exact h
  | cons v vs ih => exact ih (h.add v)

theorem Filling.add_of_lt (h : Filling config p) (ha : Affordable config)
    (hlt : p.size < admitted config) (v : Value) :
    (p.add v).answer = .ok p.size.toUInt8 ∧
      (p.add v).state.constants.values = p.constants.values.push v := by
  have hmost : p.size < most := Nat.lt_of_lt_of_le hlt (Nat.min_le_left ..)
  have hindex : indexByte p.size = .ok p.size.toUInt8 := (indexByte_of_lt hmost).1
  rw [add_of_room hmost]
  rcases Nat.lt_or_ge p.constants.size p.constants.capacity with hr | hf
  · rw [Slots.push_of_room v hr]
    exact ⟨hindex, rfl⟩
  · have hold : p.constants.capacity < admitted config := Nat.lt_of_le_of_lt hf hlt
    obtain ⟨wanted, hn, _, hl⟩ := ha.next? (Nat.lt_of_lt_of_le hold (Nat.min_le_left ..))
    have hcap : ∀ m, config.maxCapacity = some m → p.constants.capacity < m := by
      intro m hm
      rw [admitted, hm] at hold
      exact Nat.lt_of_lt_of_le hold (Nat.min_le_right ..)
    have hcapped : config.capped wanted < slotLimit :=
      Nat.lt_of_le_of_lt (config.capped_le_self wanted) hl
    have hg : p.constants.config.grownCapacity p.constants.capacity = .ok (config.capped wanted) := by
      rw [h.config_eq]
      exact SlotsConfig.grownCapacity_eq_ok.2
        ⟨SlotsConfig.askedCapacity_eq_ok.2 ⟨wanted, hn, hcap, rfl⟩, hcapped⟩
    rw [Slots.push_of_full v hf hg]
    exact ⟨hindex, rfl⟩

inductive Refusal (config : SlotsConfig) : Fault → Prop where
  | full (h : admitted config = most) : Refusal config (.poolFull most)
  | capped (cap requested : Nat) (h : config.maxCapacity = some cap) (hlt : cap < most)
      (wanted : config.growth.next? cap = some requested) :
      Refusal config (.outOfMemory requested "slots" (some cap))

theorem exists_refusal (ha : Affordable config) : ∃ fault, Refusal config fault := by
  rcases Nat.lt_or_ge (admitted config) most with hlt | hge
  · cases hm : config.maxCapacity with
    | none => simp [admitted, hm] at hlt
    | some cap =>
      have hcap : cap < most := by
        rw [admitted, hm, Option.getD_some] at hlt
        omega
      obtain ⟨requested, hn, _⟩ := ha.next? hcap
      exact ⟨_, .capped cap requested hm hcap hn⟩
  · exact ⟨_, .full (Nat.le_antisymm (Nat.min_le_left ..) hge)⟩

theorem Filling.add_of_admitted (h : Filling config p) (hp : admitted config ≤ p.size)
    {fault : Fault} (hr : Refusal config fault) (v : Value) : p.add v = .refuse p fault := by
  cases hr with
  | full hm => exact add_of_full (hm ▸ hp) v
  | capped cap requested hm hlt wanted =>
    have hcap : admitted config = cap := by
      rw [admitted, hm]
      exact Nat.min_eq_right (Nat.le_of_lt hlt)
    have hle : p.constants.capacity ≤ cap := h.fits.capacity_le cap (by rw [h.config_eq, hm])
    have hsize : p.size ≤ p.constants.capacity := h.fits.size_le
    have hf : p.constants.capacity ≤ p.constants.size := Nat.le_trans hle (hcap ▸ hp)
    have hfull : p.constants.capacity = cap := by omega
    have hasked : p.constants.config.grownCapacity p.constants.capacity =
        .error (.outOfMemory requested "slots" (some cap)) := by
      rw [h.config_eq, hfull]
      simp [SlotsConfig.grownCapacity, SlotsConfig.askedCapacity, wanted, hm,
        SlotsConfig.outOfMemory, bind, Except.bind]
    have hroom : p.size < most := by omega
    rw [add_of_room hroom, Slots.push_of_refused v hf hasked]
    rfl

theorem Filling.answers_eq (h : Filling config p) (ha : Affordable config) {fault : Fault}
    (hr : Refusal config fault) {missing : Nat} (hm : p.size + missing = admitted config)
    (vs : List Value) :
    p.answers vs = (List.range' p.size (min missing vs.length)).map (.ok ∘ Nat.toUInt8) ++
        List.replicate (vs.length - missing) (.error fault) ∧
      (p.addAll vs).constants.values.toList = p.constants.values.toList ++ vs.take missing := by
  induction vs generalizing p missing with
  | nil => simp [answers, Pool.addAll]
  | cons v vs ih =>
    cases missing with
    | zero =>
      have hrefused : p.add v = .refuse p fault := h.add_of_admitted (Nat.le_of_eq hm.symm) hr v
      obtain ⟨hanswers, hvalues⟩ := ih h hm
      rw [answers, Pool.addAll, hrefused]
      constructor
      · change .error fault :: p.answers vs = _
        rw [hanswers, Nat.zero_min, Nat.zero_min]
        rfl
      · exact hvalues
    | succ missing =>
      obtain ⟨hanswer, hpushed⟩ := h.add_of_lt ha (show p.size < admitted config by omega) v
      have hsize : (p.add v).state.size = p.size + 1 := by
        rw [size, Slots.size, hpushed, Array.size_push, size, Slots.size]
      have hnext : (p.add v).state.size + missing = admitted config := by omega
      obtain ⟨hanswers, hvalues⟩ := ih (h.add v) hnext
      rw [answers, Pool.addAll]
      constructor
      · rw [hanswer, hanswers, hsize, List.length_cons, Nat.succ_min_succ, List.range'_succ,
          Nat.succ_sub_succ]
        rfl
      · rw [hvalues, hpushed, Array.toList_push, List.append_assoc, List.take_succ_cons]
        rfl

theorem Refusal.eq_poolFull {fault : Fault} (h : Refusal config fault)
    (ha : admitted config = most) : fault = .poolFull most := by
  cases h with
  | full _ => rfl
  | capped cap requested hm hlt wanted =>
    rw [admitted, hm, Option.getD_some] at ha
    omega

theorem Refusal.eq_outOfMemory {fault : Fault} (h : Refusal config fault) {cap : Nat}
    (hm : config.maxCapacity = some cap) (hlt : cap < most) :
    ∃ requested, config.growth.next? cap = some requested ∧
      fault = .outOfMemory requested "slots" (some cap) := by
  cases h with
  | full ha =>
    rw [admitted, hm, Option.getD_some] at ha
    omega
  | capped cap' requested hm' _ wanted =>
    cases hm.symm.trans hm'
    exact ⟨requested, wanted, rfl⟩

/-- A pool that starts empty gives the first constants the indices from zero on: to as many of them
as a byte can address or, if that is less, as its cap allows. It refuses all others with one and the
same fault and stays as it is. The fault is that of a full pool, unless the cap is below what a byte
can address. -/
theorem admits_exactly (config : SlotsConfig) (hb : config.growth.minimumBlock < slotLimit)
    (hf : 255 * config.growth.factor < slotLimit) :
    ∃ fault,
      (admitted config = 256 → fault = .poolFull 256) ∧
      (∀ cap, config.maxCapacity = some cap → cap < 256 →
        ∃ requested, config.growth.next? cap = some requested ∧
          fault = .outOfMemory requested "slots" (some cap)) ∧
      ∀ vs : List Value,
        let p := (empty config).addAll vs
        (empty config).answers vs =
          (List.range (min (admitted config) vs.length)).map (.ok ∘ Nat.toUInt8) ++
            List.replicate (vs.length - admitted config) (.error fault) ∧
        p.constants.values.toList = vs.take (admitted config) ∧
        (∀ other, .error other ∈ (empty config).answers vs → other = fault) ∧
        (admitted config ≤ vs.length → ∀ v, p.add v = .refuse p fault) := by
  have ha : Affordable config := ⟨hb, hf⟩
  obtain ⟨fault, hr⟩ := exists_refusal ha
  refine ⟨fault, hr.eq_poolFull, fun cap => hr.eq_outOfMemory, fun vs => ?_⟩
  have hm : (empty config).size + admitted config = admitted config := Nat.zero_add _
  obtain ⟨hanswers, hvalues⟩ := (filling_empty config).answers_eq ha hr hm vs
  refine ⟨?_, hvalues, ?_, ?_⟩
  · rw [hanswers, List.range_eq_range']
    rfl
  · intro other ho
    rw [hanswers] at ho
    rcases List.mem_append.1 ho with hok | herror
    · obtain ⟨index, _, hi⟩ := List.mem_map.1 hok
      exact nomatch hi
    · exact Except.error.inj (List.eq_of_mem_replicate herror)
  · intro hle v
    refine ((filling_empty config).addAll vs).add_of_admitted ?_ hr v
    rw [size, Slots.size_eq_length, hvalues]
    change admitted config ≤ (vs.take (admitted config)).length
    rw [List.length_take]
    exact Nat.le_min.2 ⟨Nat.le_refl _, hle⟩

theorem admits_exactly_boundary :
    let config (cap : Nat) : SlotsConfig := { growth := ⟨900, 3⟩, maxCapacity := some cap }
    let vs := List.replicate 257 (Value.int 7)
    900 < slotLimit ∧ 255 * 3 < slotLimit ∧
      (empty (config 256)).answers vs =
        (List.range 256).map (.ok ∘ Nat.toUInt8) ++ [.error (.poolFull 256)] ∧
      (empty (config 255)).answers vs =
        (List.range 255).map (.ok ∘ Nat.toUInt8) ++
          List.replicate 2 (.error (.outOfMemory 900 "slots" (some 255))) := by
  intro config vs
  refine ⟨by decide, by decide, ?_, ?_⟩
  · obtain ⟨fault, hfull, _, h⟩ := admits_exactly (config 256) (by decide) (by decide)
    have hadmitted : admitted (config 256) = 256 := rfl
    rw [(h vs).1, hadmitted, List.length_replicate, hfull rfl]
    rfl
  · obtain ⟨fault, _, hcapped, h⟩ := admits_exactly (config 255) (by decide) (by decide)
    obtain ⟨requested, hrequested, rfl⟩ := hcapped 255 rfl (by decide)
    cases hrequested
    have hadmitted : admitted (config 255) = 255 := rfl
    rw [(h vs).1, hadmitted, List.length_replicate]
    rfl

end ValueStorage.Pool
