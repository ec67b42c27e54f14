import ValueStorage.Pool
import ValueStorage.Proofs.Lineage
import ValueStorage.Proofs.SlotsList

/-! Pools that are alive together, some of them copies of others. An index that a pool has given out
stands for its constant for good, in that pool and in all copies that are taken of it from then on. -/

namespace ValueStorage

namespace PoolWorld

inductive Action where
  | new (config : SlotsConfig)
  | copy (pool : Nat)
  | add (pool : Nat) (v : Value)

def step (pools : List Pool) : Action → Outcome (List Pool) (Option UInt8)
  | .new config => ⟨pools ++ [.empty config], .ok none, []⟩
  | .copy i => ⟨pools ++ (pools[i]?.map Pool.copy).toList, .ok none, []⟩
  | .add i v =>
    match pools[i]? with
    | none => ⟨pools, .ok none, []⟩
    | some p =>
      let o := (p.add v).map some
      ⟨pools.set i o.state, o.answer, o.trace⟩

def run : List Pool → List Action → List Pool
  | pools, [] => pools
  | pools, a :: as => run (step pools a).state as

/-- What an answer adds to the record of which constants were added to which pool, and under which
indices. A copy takes over the record of its original. -/
def recorded (issued : List (List (Value × UInt8))) :
    Action → Except Fault (Option UInt8) → List (List (Value × UInt8))
  | .new _, _ => issued ++ [[]]
  | .copy i, _ => issued ++ issued[i]?.toList
  | .add i v, .ok (some index) => issued.modify i (· ++ [(v, index)])
  | .add _ _, _ => issued

def record : List Pool → List (List (Value × UInt8)) → List Action → List (List (Value × UInt8))
  | _, issued, [] => issued
  | pools, issued, a :: as =>
    record (step pools a).state (recorded issued a (step pools a).answer) as

end PoolWorld

namespace Pool

/-- The pool has in order what was added to it, and every index that was given out is the place of its
constant. -/
structure Issued (p : Pool) (past : List (Value × UInt8)) : Prop where
  constants : p.constants.values.toList = past.map Prod.fst
  indices : past.map (·.2.toNat) = List.range past.length
  size_le : p.size ≤ most

variable {p : Pool} {past : List (Value × UInt8)}

theorem Issued.size_eq (h : p.Issued past) : p.size = past.length := by
  rw [size, Slots.size_eq_length, h.constants, List.length_map]

theorem issued_empty (config : SlotsConfig) : (Pool.empty config).Issued [] :=
  ⟨rfl, rfl, Nat.zero_le most⟩

theorem issued_added (h : p.Issued past) {v : Value} (hr : p.size < most)
    (hv : (p.add v).state.constants.values = p.constants.values.push v) :
    (p.add v).state.Issued (past ++ [(v, p.size.toUInt8)]) := by
  have hindex : p.size.toUInt8.toNat = past.length := by
    rw [← h.size_eq]
    exact (indexByte_of_lt hr).2
  refine ⟨?_, ?_, ?_⟩
  · rw [hv, Array.toList_push, h.constants, List.map_append]
    rfl
  · rw [List.map_append, h.indices, List.length_append, List.map_singleton, hindex]
    exact List.range_succ.symm
  · rw [size, Slots.size, hv, Array.size_push]
    exact hr

theorem state_of_refused_add {v : Value} {fault : Fault} (h : (p.add v).answer = .error fault) :
    (p.add v).state = p := by
  rcases p.add_cases v with ⟨_, ha, _⟩ | ⟨fault, hp⟩
  · exact nomatch ha.symm.trans h
  · rw [hp]
    rfl

theorem index_of_pushed (hr : p.size < most) {v : Value} {n : Nat}
    (hn : (p.constants.push v).answer = .ok n) :
    ∃ index, (p.add v).answer = .ok index ∧ index.toNat = n := by
  have hsize : n = p.size := by
    rcases p.constants.push_cases v with ⟨_, hp⟩ | ⟨capacity, _, _, hp⟩ | ⟨requested, _, hp⟩
    · rw [hp] at hn
      exact (Except.ok.inj hn).symm
    · rw [hp] at hn
      exact (Except.ok.inj hn).symm
    · rw [hp] at hn
      exact nomatch hn
  obtain ⟨hb, hindex⟩ := indexByte_of_lt (hsize ▸ hr)
  refine ⟨n.toUInt8, ?_, hindex⟩
  rw [add_of_room hr, hn]
  exact hb

theorem Issued.get_eq (h : p.Issued past) {k : Nat} {v : Value} {index : UInt8}
    (hk : past[k]? = some (v, index)) : index.toNat = k ∧ p.get index = .ok v := by
  have hlt : k < past.length := (List.getElem?_eq_some_iff.1 hk).1
  have hindex : index.toNat = k := by
    have hi := congrArg (·[k]?) h.indices
    simp only [List.getElem?_map, hk, List.getElem?_range hlt, Option.map_some,
      Option.some.injEq] at hi
    exact hi
  have hv : p.constants.values.toList[k]? = some v := by
    rw [h.constants, List.getElem?_map, hk]
    rfl
  refine ⟨hindex, ?_⟩
  rw [get, hindex, (Slots.shows_contents p.constants).get k, hv]

theorem get_beyond {index : UInt8} (hi : p.size ≤ index.toNat) :
    p.get index = .error (.indexOutOfBounds index.toNat p.size) := by
  rw [size, Slots.size_eq_length] at hi ⊢
  rw [get, (Slots.shows_contents p.constants).get, List.getElem?_eq_none hi]

end Pool

namespace PoolWorld

open List (Forall₂)

variable {pools : List Pool} {issued : List (List (Value × UInt8))}

theorem issued_step (h : Forall₂ Pool.Issued pools issued) (a : Action) :
    Forall₂ Pool.Issued (step pools a).state (recorded issued a (step pools a).answer) := by
  cases a with
  | new config => exact Lineage.forall₂_new h (Pool.issued_empty config)
  | copy i =>
    have same : pools[i]?.map Pool.copy = pools[i]? := by
      cases pools[i]? <;> rfl
    simp only [step, recorded, same]
    exact Lineage.forall₂_copy h i
  | add i v =>
    cases hi : pools[i]? with
    | none =>
      simp only [step, hi]
      exact h
    | some p =>
      rcases p.add_cases v with ⟨hr, ha, hv⟩ | ⟨fault, hp⟩
      · simp only [step, hi, Outcome.map, ha]
        exact Lineage.forall₂_set_modify h (fun _ _ hs => hs) hi
          fun past hpast => Pool.issued_added hpast hr hv
      · simp only [step, hi, Outcome.map, hp, Outcome.refuse, Lineage.set_self hi]
        exact h

theorem issued_run (h : Forall₂ Pool.Issued pools issued) (as : List Action) :
    Forall₂ Pool.Issued (run pools as) (record pools issued as) := by
  induction as generalizing pools issued with
  | nil => exact h
  | cons a as ih => exact ih (issued_step h a)

/-- In a pool of any run the constants have the indices from zero on, in the order in which they were
added to the pool or, before it was taken as a copy, to its original; there are at most 256. Every
index that was given out is answered with its constant, and every index beyond with an error. There is
a byte for the index of every constant that the slots take. An addition that is refused changes
nothing. -/
theorem indices_stay_valid (as : List Action) {i : Nat} {p : Pool} (hp : (run [] as)[i]? = some p) :
    ∃ past, (record [] [] as)[i]? = some past ∧ p.size = past.length ∧ p.size ≤ 256 ∧
      (∀ k v index, past[k]? = some (v, index) → index.toNat = k ∧ p.get index = .ok v) ∧
      (∀ index, p.size ≤ index.toNat →
        p.get index = .error (.indexOutOfBounds index.toNat p.size)) ∧
      (∀ v n, p.size < Pool.most → (p.constants.push v).answer = .ok n →
        ∃ index, (p.add v).answer = .ok index ∧ index.toNat = n) ∧
      ∀ v fault, (p.add v).answer = .error fault → (p.add v).state = p := by
  obtain ⟨past, hpast, h⟩ := Lineage.past_of_thing (issued_run .nil as) hp
  refine ⟨past, hpast, h.size_eq, h.size_le, ?_, ?_, ?_, ?_⟩
  · intro k v index hk
    exact h.get_eq hk
  · intro index hi
    exact Pool.get_beyond hi
  · intro v n hr hn
    exact Pool.index_of_pushed hr hn
  · intro v fault hf
    exact Pool.state_of_refused_add hf

theorem indices_stay_valid_copy :
    let shared : Value := .str ⟨7, .ofBytes [104, 105]⟩
    let as : List Action := [.new { maxCapacity := some 2 }, .add 0 shared, .copy 0,
      .add 1 (.bool true), .add 1 (.int 3), .add 0 (.int 4)]
    ∃ p, (run [] as)[1]? = some p ∧
      ∃ past, (record [] [] as)[1]? = some past ∧ past = [(shared, 0), (.bool true, 1)] ∧
        p.size = past.length ∧ p.size ≤ 256 ∧
        (∀ k v index, past[k]? = some (v, index) → index.toNat = k ∧ p.get index = .ok v) ∧
        (∀ index, p.size ≤ index.toNat →
          p.get index = .error (.indexOutOfBounds index.toNat p.size)) ∧
        (∀ v n, p.size < Pool.most → (p.constants.push v).answer = .ok n →
          ∃ index, (p.add v).answer = .ok index ∧ index.toNat = n) ∧
        ∀ v fault, (p.add v).answer = .error fault → (p.add v).state = p := by
  refine ⟨_, rfl, ?_⟩
  obtain ⟨past, hpast, h⟩ := indices_stay_valid [.new { maxCapacity := some 2 },
    .add 0 (.str ⟨7, .ofBytes [104, 105]⟩), .copy 0, .add 1 (.bool true), .add 1 (.int 3),
    .add 0 (.int 4)]
    (i := 1) rfl
  exact ⟨past, hpast, (Option.some.inj hpast).symm, h⟩

end PoolWorld

end ValueStorage
