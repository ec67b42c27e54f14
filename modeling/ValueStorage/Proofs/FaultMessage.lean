import ValueStorage.Heap
import ValueStorage.Pool
import ValueStorage.Proofs.DecimalText
import ValueStorage.Proofs.SlotsList

/-! What the message of a fault tells. A message is a row of words with single spaces between them, and
the words give back the fault with all its numbers. The unit is a word among them, so the one thing
needed is that it is a single one. -/

namespace ValueStorage.Fault

open Decimal

def UnitIsWord : Fault → Prop
  | outOfMemory _ unit _ => ' ' ∉ unit.toList
  | _ => True

/-! Words. -/

def limitWords : Option ℕ → List String
  | none => []
  | some limit => ["(limit", toString limit ++ ")"]

def words : Fault → List String
  | outOfMemory requested unit limit =>
    "Out" :: "of" :: "memory:" :: "requested" :: toString requested :: unit :: limitWords limit
  | indexOutOfBounds index length =>
    ["Index", "out", "of", "bounds:", "index", toString index, "but", "length", "is",
      toString length]
  | invalidCapacity count capacity =>
    ["Invalid", "capacity:", "count", toString count, "exceeds", "capacity", toString capacity]
  | stackUnderflow => ["Stack", "underflow"]
  | poolFull most => ["Constant", "pool", "full:", "at", "most", toString most, "constants"]

def ofWords? : List String → Option Fault
  | ["Out", "of", "memory:", "requested", requested, unit] => do
    let requested ← natOf? requested.toList
    return .outOfMemory requested unit none
  | ["Out", "of", "memory:", "requested", requested, unit, "(limit", limit] => do
    let requested ← natOf? requested.toList
    let limit ← natOf? limit.toList.dropLast
    return .outOfMemory requested unit (some limit)
  | ["Index", "out", "of", "bounds:", "index", index, "but", "length", "is", length] => do
    let index ← natOf? index.toList
    let length ← natOf? length.toList
    return .indexOutOfBounds index length
  | ["Invalid", "capacity:", "count", count, "exceeds", "capacity", capacity] => do
    let count ← natOf? count.toList
    let capacity ← natOf? capacity.toList
    return .invalidCapacity count capacity
  | ["Stack", "underflow"] => some .stackUnderflow
  | ["Constant", "pool", "full:", "at", "most", most, "constants"] => do
    let most ← natOf? most.toList
    return .poolFull most
  | _ => none

def read? (message : String) : Option Fault :=
  ofWords? ((message.toList.splitOn ' ').map String.ofList)

def spaced : List String → List Char
  | [] => []
  | [word] => word.toList
  | word :: next :: rest => word.toList ++ ' ' :: spaced (next :: rest)

theorem splitOn_spaced {ws : List String} (hne : ws ≠ []) (h : ∀ w ∈ ws, ' ' ∉ w.toList) :
    ((spaced ws).splitOn ' ').map String.ofList = ws := by
  induction ws with
  | nil => exact absurd rfl hne
  | cons word rest ih =>
    have hword : ' ' ∉ word.toList := h word (List.mem_cons_self ..)
    cases rest with
    | nil => rw [spaced, List.splitOn_eq_singleton hword, List.map_singleton, String.ofList_toList]
    | cons next rest =>
      rw [spaced, List.splitOn_append_cons_self_of_not_mem hword, List.map_cons,
        String.ofList_toList, ih (List.cons_ne_nil _ _) fun w hw => h w (List.mem_cons_of_mem _ hw)]

theorem toList_message (f : Fault) : f.message.toList = spaced f.words := by
  cases f with
  | outOfMemory requested unit limit =>
    cases limit with
    | none =>
      change (_ ++ _ ++ _ ++ _ ++ "" : String).toList = _
      rw [String.append_empty]
      simp only [String.toList_append, List.append_assoc]
      rfl
    | some limit =>
      have hlast : (toString limit ++ ")").toList = (toString limit).toList ++ ")".toList :=
        String.toList_append
      change (_ ++ _ ++ _ ++ _ ++ (_ ++ _ ++ _) : String).toList = _
      simp only [words, limitWords, spaced, hlast, String.toList_append, List.append_assoc]
      rfl
  | indexOutOfBounds index length =>
    change (_ ++ _ ++ _ ++ _ : String).toList = _
    simp only [String.toList_append, List.append_assoc]
    rfl
  | invalidCapacity count capacity =>
    change (_ ++ _ ++ _ ++ _ : String).toList = _
    simp only [String.toList_append, List.append_assoc]
    rfl
  | stackUnderflow => rfl
  | poolFull most =>
    change (_ ++ _ ++ _ : String).toList = _
    simp only [String.toList_append, List.append_assoc]
    rfl

theorem natOf?_toString (n : ℕ) : natOf? (toString n).toList = some n := by
  change natOf? n.repr.toList = some n
  rw [Nat.toList_repr, natOf?_toDigits]

theorem space_notMem_toDigits (n : ℕ) : ' ' ∉ Nat.toDigits 10 n := by
  intro h
  exact nomatch Nat.isDigit_of_mem_toDigits (by decide) (by decide) h

theorem space_notMem_words {f : Fault} (h : f.UnitIsWord) : ∀ w ∈ f.words, ' ' ∉ w.toList := by
  cases f with
  | outOfMemory requested unit limit =>
    have hunit : ' ' ∉ unit.toList := h
    cases limit <;> simp [words, limitWords, space_notMem_toDigits, hunit]
  | indexOutOfBounds index length => simp [words, space_notMem_toDigits]
  | invalidCapacity count capacity => simp [words, space_notMem_toDigits]
  | stackUnderflow => decide
  | poolFull most => simp [words, space_notMem_toDigits]

theorem words_ne_nil (f : Fault) : f.words ≠ [] := by
  cases f <;> exact List.cons_ne_nil _ _

theorem ofWords?_words (f : Fault) : ofWords? f.words = some f := by
  cases f with
  | outOfMemory requested unit limit =>
    cases limit with
    | none =>
      change (do
        let requested ← natOf? (toString requested).toList
        return outOfMemory requested unit none : Option Fault) = _
      rw [natOf?_toString]
      rfl
    | some limit =>
      -- the closing parenthesis is part of the last word
      have hlimit : natOf? (toString limit ++ ")").toList.dropLast = some limit := by
        rw [String.toList_append]
        change natOf? ((toString limit).toList ++ [')']).dropLast = some limit
        rw [List.dropLast_concat, natOf?_toString]
      change (do
        let requested ← natOf? (toString requested).toList
        let limit ← natOf? (toString limit ++ ")").toList.dropLast
        return outOfMemory requested unit (some limit) : Option Fault) = _
      rw [natOf?_toString, hlimit]
      rfl
  | indexOutOfBounds index length =>
    change (do
      let index ← natOf? (toString index).toList
      let length ← natOf? (toString length).toList
      return indexOutOfBounds index length : Option Fault) = _
    rw [natOf?_toString, natOf?_toString]
    rfl
  | invalidCapacity count capacity =>
    change (do
      let count ← natOf? (toString count).toList
      let capacity ← natOf? (toString capacity).toList
      return invalidCapacity count capacity : Option Fault) = _
    rw [natOf?_toString, natOf?_toString]
    rfl
  | stackUnderflow => rfl
  | poolFull most =>
    change (do
      let most ← natOf? (toString most).toList
      return poolFull most : Option Fault) = _
    rw [natOf?_toString]
    rfl

theorem read?_message {f : Fault} (h : f.UnitIsWord) : read? f.message = some f := by
  rw [read?, toList_message, splitOn_spaced f.words_ne_nil (space_notMem_words h), ofWords?_words]

/-! The faults that storage raises. -/

/-- The faults with which arrays, pools and heaps answer. -/
inductive Raised : Fault → Prop
  | create {count capacity : ℕ} {config : SlotsConfig} {fault : Fault}
      (h : Slots.create count capacity config = .error fault) : Raised fault
  | operation {s : Slots} {op : Slots.Operation} {fault : Fault}
      (h : (s.step op).answer = .error fault) : Raised fault
  | add {p : Pool} {v : Value} {fault : Fault} (h : (p.add v).answer = .error fault) : Raised fault
  | constant {p : Pool} {index : UInt8} {fault : Fault} (h : p.get index = .error fault) :
      Raised fault
  | allocate {α : Type} {heap : Heap} {kind : RefKind} {identity bytes : ℕ} {target : α}
      {fault : Fault} (h : (heap.allocate kind identity bytes target).answer = .error fault) :
      Raised fault

theorem unitIsWord_slots (c : SlotsConfig) (requested : ℕ) : (c.outOfMemory requested).UnitIsWord := by
  change ' ' ∉ "slots".toList
  decide

theorem unitIsWord_create {count capacity : ℕ} {config : SlotsConfig} {fault : Fault}
    (h : Slots.create count capacity config = .error fault) : fault.UnitIsWord := by
  rw [Slots.create] at h
  split at h
  · rw [← Except.error.inj h]
    trivial
  split at h
  · rw [← Except.error.inj h]
    exact unitIsWord_slots _ _
  rw [SlotsConfig.reserve] at h
  split at h
  · rw [← Except.error.inj h]
    exact unitIsWord_slots _ _
  · cases h

theorem unitIsWord_step {vs rest : List Value} {op : Slots.Operation} {fault : Fault}
    (h : Slots.ListStep vs op (.error fault) rest) : fault.UnitIsWord := by
  cases h with
  | refused _ _ requested limit => exact unitIsWord_slots { maxCapacity := limit } requested
  | getBeyond | setBeyond | popEmpty | peekEmpty => trivial

theorem unitIsWord_get {s : Slots} {index : ℕ} {fault : Fault} (h : s.get index = .error fault) :
    fault.UnitIsWord := by
  rcases s.get_cases index with ⟨v, _, hg⟩ | ⟨_, hg⟩
  · exact nomatch h.symm.trans hg
  · rw [← Except.error.inj (hg.symm.trans h)]
    trivial

theorem unitIsWord_add {p : Pool} {v : Value} {fault : Fault} (h : (p.add v).answer = .error fault) :
    fault.UnitIsWord := by
  rcases Nat.lt_or_ge p.size Pool.most with hroom | hfull
  · have hindex : Pool.indexByte p.size = .ok p.size.toUInt8 := (Pool.indexByte_of_lt hroom).1
    rcases p.constants.push_cases v with ⟨_, hp⟩ | ⟨_, _, _, hp⟩ | ⟨requested, _, hp⟩
    · rw [Pool.add_of_room hroom, hp] at h
      exact nomatch hindex.symm.trans h
    · rw [Pool.add_of_room hroom, hp] at h
      exact nomatch hindex.symm.trans h
    · rw [Pool.add_of_room hroom, hp] at h
      rw [← Except.error.inj h]
      exact unitIsWord_slots _ _
  · rw [Pool.add_of_full hfull] at h
    rw [← Except.error.inj h]
    trivial

theorem unitIsWord_allocate {α : Type} {heap : Heap} {kind : RefKind} {identity bytes : ℕ} {target : α}
    {fault : Fault} (h : (heap.allocate kind identity bytes target).answer = .error fault) :
    fault.UnitIsWord := by
  by_cases hroom : heap.HasRoom bytes
  · rw [Heap.allocate, Heap.reserve_of_room hroom] at h
    cases h
  · rw [Heap.allocate_of_no_room hroom] at h
    rw [← Except.error.inj h]
    change ' ' ∉ "bytes".toList
    decide

theorem Raised.unitIsWord {fault : Fault} (h : Raised fault) : fault.UnitIsWord := by
  cases h with
  | create h => exact unitIsWord_create h
  | @operation s op _ h =>
    have hstep := s.listStep_step op
    rw [h] at hstep
    exact unitIsWord_step hstep
  | add h => exact unitIsWord_add h
  | constant h => exact unitIsWord_get h
  | allocate h => exact unitIsWord_allocate h

/-- The message of a fault is read back as the fault, with every number in it and with the limit if there
was one, so that two faults with the same message are the same. This needs that no unit has a space in
it, and none has in a fault that storage raises. -/
theorem message_determines_fault :
    (∀ f : Fault, f.UnitIsWord → read? f.message = some f) ∧
    (∀ f g : Fault, f.UnitIsWord → g.UnitIsWord → (f.message = g.message ↔ f = g)) ∧
    ∀ f : Fault, Raised f → f.UnitIsWord := by
  refine ⟨fun f hf => read?_message hf, fun f g hf hg => ⟨fun h => ?_, congrArg message⟩,
    fun f hf => hf.unitIsWord⟩
  have hread := read?_message hf
  rw [h, read?_message hg] at hread
  exact (Option.some.inj hread).symm

theorem message_determines_fault_limit :
    let f : Fault := .outOfMemory 16 "slots" (some 8)
    let g : Fault := .outOfMemory 16 "slots" none
    let h : Fault := .outOfMemory 16 "slots (limit 8)" none
    Raised f ∧ f.UnitIsWord ∧ g.UnitIsWord ∧
      read? "Out of memory: requested 16 slots (limit 8)" = some f ∧ f.message ≠ g.message ∧
      ¬ h.UnitIsWord ∧ h.message = f.message := by
  intro f g h
  obtain ⟨hread, hiff, hword⟩ := message_determines_fault
  have hraised : Raised f :=
    .create (by rfl : Slots.create 16 16 { maxCapacity := some 8 } = .error f)
  have hf : f.UnitIsWord := hword f hraised
  have hg : g.UnitIsWord := hf
  have hne : f ≠ g := by decide
  have hh : ¬ h.UnitIsWord := by
    change ¬ ' ' ∉ "slots (limit 8)".toList
    decide
  exact ⟨hraised, hf, hg, hread f hf, fun he => hne ((hiff f g hf hg).1 he), hh, by decide⟩

end ValueStorage.Fault
