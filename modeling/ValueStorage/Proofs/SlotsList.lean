import ValueStorage.Proofs.SlotsRun

/-! Arrays seen as lists. Growing, capping, copying and refusing are invisible: whatever is asked of
an array is answered as by a plain list that went through the same operations. -/

namespace ValueStorage.Slots

/-- One operation on a plain list of values, with the answer to it and the list after it. A list
knows of no slots, so it leaves open whether a push is granted. -/
inductive ListStep : List Value → Operation → Except Fault Answer → List Value → Prop where
  | pushed (vs v) : ListStep vs (.push v) (.ok (.index vs.length)) (vs ++ [v])
  | refused (vs v requested limit) :
      ListStep vs (.push v) (.error (.outOfMemory requested "slots" limit)) vs
  | got {vs index v} (h : vs[index]? = some v) : ListStep vs (.get index) (.ok (.value v)) vs
  | getBeyond {vs index} (h : vs.length ≤ index) :
      ListStep vs (.get index) (.error (.indexOutOfBounds index vs.length)) vs
  | replaced {vs index previous} (v) (h : vs[index]? = some previous) :
      ListStep vs (.set index v) (.ok (.value previous)) (vs.set index v)
  | setBeyond {vs index} (v) (h : vs.length ≤ index) :
      ListStep vs (.set index v) (.error (.indexOutOfBounds index vs.length)) vs
  | popped (vs last) : ListStep (vs ++ [last]) .pop (.ok (.value last)) vs
  | popEmpty : ListStep [] .pop (.error .stackUnderflow) []
  | peeked (vs last) : ListStep (vs ++ [last]) .peek (.ok (.value last)) (vs ++ [last])
  | peekEmpty : ListStep [] .peek (.error .stackUnderflow) []
  | cleared (vs) : ListStep vs .clear (.ok .done) []
  | copied (vs branch) : ListStep vs (.copy branch) (.ok .done) vs

inductive ListRun : List Value → List Operation → List (Except Fault Answer) → List Value → Prop
    where
  | nil (vs) : ListRun vs [] [] vs
  | cons {vs us ws op ops answer answers} (first : ListStep vs op answer us)
      (rest : ListRun us ops answers ws) : ListRun vs (op :: ops) (answer :: answers) ws

/-- Everything that can be read of the array is what can be read of the list. -/
structure Shows (s : Slots) (vs : List Value) : Prop where
  contents : s.values.toList = vs
  size : s.size = vs.length
  isEmpty : s.isEmpty = vs.isEmpty
  get (index : Nat) : s.get index =
    match vs[index]? with
    | some v => .ok v
    | none => .error (.indexOutOfBounds index vs.length)

theorem shows_contents (s : Slots) : s.Shows s.values.toList where
  contents := rfl
  size := s.size_eq_length
  isEmpty := by simp [isEmpty]
  get index := by
    unfold Slots.get
    cases hv : s.values[index]? with
    | some v => simp [hv]
    | none => simp [hv, size]

theorem get_cases (s : Slots) (index : Nat) :
    (∃ v, s.values.toList[index]? = some v ∧ s.get index = .ok v) ∨
      s.values.toList.length ≤ index ∧
        s.get index = .error (.indexOutOfBounds index s.values.toList.length) := by
  have hg := s.shows_contents.get index
  cases hv : s.values.toList[index]? with
  | some v => exact .inl ⟨v, rfl, by rw [hg, hv]⟩
  | none => exact .inr ⟨List.getElem?_eq_none_iff.1 hv, by rw [hg, hv]⟩

theorem peek_cases (s : Slots) :
    (∃ vs last, s.values.toList = vs ++ [last] ∧ s.values.pop.toList = vs ∧ s.peek = .ok last) ∨
      s.values.toList = [] ∧ s.peek = .error .stackUnderflow := by
  have hb : s.values.back? = s.values.toList.getLast? := (Array.getLast?_toList s.values).symm
  cases hl : s.values.toList.getLast? with
  | some last =>
    obtain ⟨vs, hc⟩ := List.getLast?_eq_some_iff.1 hl
    have hp : s.values.pop.toList = vs := by rw [Array.toList_pop, hc, List.dropLast_concat]
    exact .inl ⟨vs, last, hc, hp, by rw [peek, hb, hl]⟩
  | none => exact .inr ⟨List.getLast?_eq_none_iff.1 hl, by rw [peek, hb, hl]⟩

theorem listStep_push (s : Slots) (v : Value) :
    ListStep s.values.toList (.push v) (s.step (.push v)).answer
      (s.step (.push v)).state.values.toList := by
  rcases s.push_cases v with ⟨hr, hp⟩ | ⟨capacity, hf, hg, hp⟩ | ⟨requested, hf, hp⟩
  · simp only [step, Outcome.map, hp, append, Array.toList_push, size_eq_length]
    exact .pushed _ v
  · simp only [step, Outcome.map, hp, append, moved, Array.toList_push, size_eq_length]
    exact .pushed _ v
  · simp only [step, Outcome.map, hp]
    exact .refused _ v requested _

theorem listStep_set (s : Slots) (index : Nat) (v : Value) :
    ListStep s.values.toList (.set index v) (s.step (.set index v)).answer
      (s.step (.set index v)).state.values.toList := by
  rcases s.get_cases index with ⟨previous, hv, hg⟩ | ⟨hl, hg⟩
  · simp only [step, Outcome.map, Slots.set, hg, Array.toList_setIfInBounds]
    exact .replaced v hv
  · simp only [step, Outcome.map, Slots.set, hg]
    exact .setBeyond v hl

theorem listStep_pop (s : Slots) :
    ListStep s.values.toList .pop (s.step .pop).answer (s.step .pop).state.values.toList := by
  rcases s.peek_cases with ⟨vs, last, hc, hp, hk⟩ | ⟨hc, hk⟩
  · simp only [step, Outcome.map, pop, hk, hc, hp]
    exact .popped vs last
  · simp only [step, Outcome.map, pop, hk, Outcome.refuse, hc]
    exact .popEmpty

theorem listStep_step (s : Slots) (op : Operation) :
    ListStep s.values.toList op (s.step op).answer (s.step op).state.values.toList := by
  cases op with
  | push v => exact s.listStep_push v
  | get index =>
    rcases s.get_cases index with ⟨v, hv, hg⟩ | ⟨hl, hg⟩
    · simp only [step, hg]
      exact .got hv
    · simp only [step, hg]
      exact .getBeyond hl
  | set index v => exact s.listStep_set index v
  | pop => exact s.listStep_pop
  | peek =>
    rcases s.peek_cases with ⟨vs, last, hc, _, hk⟩ | ⟨hc, hk⟩
    · simp only [step, hk, hc]
      exact .peeked vs last
    · simp only [step, hk, hc]
      exact .peekEmpty
  | clear => exact .cleared _
  | copy branch => cases branch <;> exact .copied _ _

theorem listRun_run (s : Slots) (ops : List Operation) :
    ListRun s.values.toList ops (s.transcript ops) (s.run ops).values.toList := by
  induction ops generalizing s with
  | nil => exact .nil _
  | cons op ops ih => exact .cons (s.listStep_step op) (ih (s.step op).state)

theorem values_make {origin : Origin} {made : Slots × List TraceEvent}
    (h : origin.make = .ok made) : made.1.values.toList = origin.values := by
  cases origin with
  | empty config =>
    cases h
    rfl
  | create count capacity config =>
    obtain ⟨_, _, _, rfl⟩ := create_eq_ok.1 h
    exact Array.toList_replicate

theorem state_of_refused {s : Slots} {op : Operation} {fault : Fault}
    (h : (s.step op).answer = .error fault) : (s.step op).state = s := by
  cases op with
  | push v =>
    rcases s.push_cases v with ⟨hr, hp⟩ | ⟨capacity, hf, hg, hp⟩ | ⟨requested, hf, hp⟩
    · simp [step, Outcome.map, hp, Except.map] at h
    · simp [step, Outcome.map, hp, Except.map] at h
    · simp [step, Outcome.map, hp, Outcome.refuse]
  | set index v =>
    cases hg : s.get index with
    | error fault => simp [step, Outcome.map, Slots.set, hg, Outcome.refuse]
    | ok previous => simp [step, Outcome.map, Slots.set, hg, Except.map] at h
  | pop =>
    cases hk : s.peek with
    | error fault => simp [step, Outcome.map, pop, hk, Outcome.refuse]
    | ok last => simp [step, Outcome.map, pop, hk, Except.map] at h
  | clear => cases h
  | copy branch => cases branch <;> rfl
  | get | peek => rfl

/-- After any operations the array shows the list that the same operations make of the first values,
and it has given the answers of that list. What it refuses leaves no trace in it, and as long as a
slot is free it grants every push. -/
theorem run_refines_list {origin : Origin} {made : Slots × List TraceEvent}
    (h : origin.make = .ok made) (ops : List Operation) :
    ∃ vs, ListRun origin.values ops (made.1.transcript ops) vs ∧ (made.1.run ops).Shows vs ∧
      (∀ op fault, ((made.1.run ops).step op).answer = .error fault →
        ((made.1.run ops).step op).state = made.1.run ops) ∧
      ((made.1.run ops).size < (made.1.run ops).capacity →
        ∀ v, ((made.1.run ops).step (.push v)).answer = .ok (.index vs.length)) := by
  refine ⟨(made.1.run ops).values.toList, ?_, shows_contents _, fun _ _ => state_of_refused, ?_⟩
  · rw [← values_make h]
    exact listRun_run made.1 ops
  · intro hr v
    simp only [step, Outcome.map, push_of_room v hr, Except.map, size_eq_length]

theorem run_refines_list_capped :
    let origin : Origin := .create 1 2 { growth := ⟨0, 1⟩, maxCapacity := some 2, trace := true }
    let ops : List Operation :=
      [.push (.str ⟨7, .ofBytes [104, 105]⟩), .push (.bool true), .copy .copy, .get 4, .pop, .peek]
    ∃ made, origin.make = .ok made ∧
      ∃ vs, ListRun origin.values ops (made.1.transcript ops) vs ∧ (made.1.run ops).Shows vs ∧
        (∀ op fault, ((made.1.run ops).step op).answer = .error fault →
          ((made.1.run ops).step op).state = made.1.run ops) ∧
        ((made.1.run ops).size < (made.1.run ops).capacity →
          ∀ v, ((made.1.run ops).step (.push v)).answer = .ok (.index vs.length)) :=
  ⟨_, rfl, run_refines_list rfl _⟩

end ValueStorage.Slots
