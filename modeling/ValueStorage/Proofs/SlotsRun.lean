import ValueStorage.Slots

/-! Arrays at work: how an array comes into being, what can be asked of it, and what any number of
operations make of it. A single step leaves an array changed in one of three ways, and whatever all
three preserve holds along every run. -/

namespace ValueStorage.Slots

inductive Origin where
  | empty (config : SlotsConfig)
  | create (count capacity : Nat) (config : SlotsConfig)

namespace Origin

def config : Origin → SlotsConfig
  | empty config => config
  | create _ _ config => config

def make : Origin → Except Fault (Slots × List TraceEvent)
  | empty config => .ok (.empty config, [])
  | create count capacity config => Slots.create count capacity config

def values : Origin → List Value
  | empty _ => []
  | create count _ _ => List.replicate count (.int 0)

end Origin

inductive Branch where
  | original
  | copy

inductive Operation where
  | push (v : Value)
  | get (index : Nat)
  | set (index : Nat) (v : Value)
  | pop
  | peek
  | clear
  | copy (branch : Branch)

inductive Answer where
  | done
  | index (n : Nat)
  | value (v : Value)

def step (s : Slots) : Operation → Outcome Slots Answer
  | .push v => (s.push v).map .index
  | .get index => ⟨s, (s.get index).map .value, []⟩
  | .set index v => (s.set index v).map .value
  | .pop => s.pop.map .value
  | .peek => ⟨s, s.peek.map .value, []⟩
  | .clear => ⟨s.clear, .ok .done, []⟩
  | .copy .original => ⟨s, .ok .done, []⟩
  | .copy .copy => ⟨s.copy, .ok .done, []⟩

def run : Slots → List Operation → Slots
  | s, [] => s
  | s, op :: ops => (s.step op).state.run ops

def transcript : Slots → List Operation → List (Except Fault Answer)
  | _, [] => []
  | s, op :: ops => (s.step op).answer :: (s.step op).state.transcript ops

/-- How a step can leave an array: with no more values than before and all else kept, with one value
more in a slot that was free, or with one value more after a growth. -/
inductive Change (s : Slots) : Slots → Prop where
  | kept (values : Array Value) (h : values.size ≤ s.size) : Change s { s with values }
  | appended (v : Value) (h : s.size < s.capacity) : Change s (s.append v)
  | grown (v : Value) (capacity : Nat) (h : s.capacity ≤ s.size)
      (granted : s.config.grownCapacity s.capacity = .ok capacity) :
      Change s ((s.moved capacity).append v)

inductive Effect (s : Slots) : Operation → Except Fault Answer → Slots → Prop where
  | kept (op : Operation) {answer : Except Fault Answer} (values : Array Value)
      (h : values.size ≤ s.size) (hn : ∀ index, answer ≠ .ok (.index index)) :
      Effect s op answer { s with values }
  | appended (v : Value) (h : s.size < s.capacity) :
      Effect s (.push v) (.ok (.index s.size)) (s.append v)
  | grown (v : Value) (capacity : Nat) (h : s.capacity ≤ s.size)
      (granted : s.config.grownCapacity s.capacity = .ok capacity) :
      Effect s (.push v) (.ok (.index s.size)) ((s.moved capacity).append v)

theorem Effect.change {s t : Slots} {op : Operation} {answer : Except Fault Answer}
    (h : Effect s op answer t) : Change s t := by
  cases h with
  | kept op values h hn => exact .kept values h
  | appended v h => exact .appended v h
  | grown v capacity h granted => exact .grown v capacity h granted

theorem effect_refl (s : Slots) (op : Operation) {answer : Except Fault Answer}
    (hn : ∀ index, answer ≠ .ok (.index index)) : Effect s op answer s :=
  .kept op s.values (Nat.le_refl _) hn

theorem effect_push (s : Slots) (v : Value) :
    Effect s (.push v) (s.step (.push v)).answer (s.step (.push v)).state := by
  rcases s.push_cases v with ⟨hr, hp⟩ | ⟨capacity, hf, hg, hp⟩ | ⟨requested, hf, hp⟩
  · simp only [step, Outcome.map, hp]
    exact .appended v hr
  · simp only [step, Outcome.map, hp]
    exact .grown v capacity hf hg
  · simp only [step, Outcome.map, hp]
    exact effect_refl s _ nofun

theorem effect_set (s : Slots) (index : Nat) (v : Value) :
    Effect s (.set index v) (s.step (.set index v)).answer (s.step (.set index v)).state := by
  cases hg : s.get index with
  | error fault =>
    simp only [step, Outcome.map, Slots.set, hg]
    exact effect_refl s _ nofun
  | ok previous =>
    simp only [step, Outcome.map, Slots.set, hg]
    exact .kept _ _ (by simp [size]) nofun

theorem effect_pop (s : Slots) : Effect s .pop (s.step .pop).answer (s.step .pop).state := by
  cases hk : s.peek with
  | error fault =>
    simp only [step, Outcome.map, pop, hk]
    exact effect_refl s _ nofun
  | ok last =>
    simp only [step, Outcome.map, pop, hk]
    exact .kept _ _ (by simp [size]) nofun

theorem map_value_ne_index (read : Except Fault Value) (index : Nat) :
    read.map Answer.value ≠ .ok (.index index) := by
  cases read <;> exact nofun

theorem effect_step (s : Slots) (op : Operation) :
    Effect s op (s.step op).answer (s.step op).state := by
  cases op with
  | push v => exact effect_push s v
  | get index => exact effect_refl s _ (map_value_ne_index _)
  | set index v => exact effect_set s index v
  | pop => exact effect_pop s
  | peek => exact effect_refl s _ (map_value_ne_index _)
  | clear => exact .kept _ #[] (Nat.zero_le _) nofun
  | copy branch => cases branch <;> exact effect_refl s _ nofun

theorem change_step (s : Slots) (op : Operation) : Change s (s.step op).state :=
  (effect_step s op).change

theorem change_push (s : Slots) (v : Value) : Change s (s.push v).state := change_step s (.push v)

theorem run_induction {P : Slots → Prop} (preserved : ∀ s t, P s → Change s t → P t)
    {s : Slots} (h : P s) (ops : List Operation) : P (s.run ops) := by
  induction ops generalizing s with
  | nil => exact h
  | cons op ops ih => exact ih (preserved s _ h (change_step s op))

theorem Change.config_eq {s t : Slots} (h : Change s t) : t.config = s.config := by
  cases h <;> rfl

theorem config_run (s : Slots) (ops : List Operation) : (s.run ops).config = s.config :=
  run_induction (P := fun t => t.config = s.config) (fun _ _ h hc => hc.config_eq.trans h) rfl ops

end ValueStorage.Slots
