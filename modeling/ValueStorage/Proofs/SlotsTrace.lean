import ValueStorage.Proofs.SlotsSchedule

/-! Arrays under observation. Tracing an array changes nothing but what is written, and what is
written says exactly what was appended and how the array grew for it. The lines that are due are
told from the run of an untraced array. -/

namespace ValueStorage

def SlotsConfig.traced (c : SlotsConfig) (on : Bool) : SlotsConfig := { c with trace := on }

def TraceEvent.growth? : TraceEvent → Option (Nat × Nat)
  | grow before after => some (before, after)
  | _ => none

def growths (events : List TraceEvent) : List (Nat × Nat) := events.filterMap TraceEvent.growth?

def Leads : Nat → List (Nat × Nat) → Nat → Prop
  | a, [], b => a = b
  | a, (before, after) :: rest, b => before = a ∧ Leads after rest b

theorem leads_append {a b c : Nat} {first rest : List (Nat × Nat)} (h : Leads a first b)
    (hr : Leads b rest c) : Leads a (first ++ rest) c := by
  induction first generalizing a with
  | nil =>
    cases h
    exact hr
  | cons pair first ih => exact ⟨h.1, ih h.2⟩

namespace Slots

def traced (s : Slots) (on : Bool) : Slots := { s with config := s.config.traced on }

def Origin.traced (on : Bool) : Origin → Origin
  | empty config => empty (config.traced on)
  | create count capacity config => create count capacity (config.traced on)

def reports : Slots → List Operation → List (List TraceEvent)
  | _, [] => []
  | s, op :: ops => (s.step op).trace :: (s.step op).state.reports ops

def traceLine (text : String) : String := "[valuecore] " ++ text ++ "\n"

def createLine (count capacity : Nat) : String :=
  traceLine ("create(count = " ++ toString count ++ ", capacity = " ++ toString capacity ++ ")")

def growLine (before after : Nat) : String :=
  traceLine ("grow(capacity = " ++ toString before ++ " -> " ++ toString after ++ ")")

def writeLine (index : Nat) (v : Value) : String :=
  traceLine ("write(index = " ++ toString index ++ ", value = " ++ v.display ++ ")")

def disposeLine (count capacity : Nat) : String :=
  traceLine ("dispose(count = " ++ toString count ++ ", capacity = " ++ toString capacity ++ ")")

def Origin.due : Origin → List String
  | empty _ => []
  | create count capacity _ => [createLine count capacity]

/-- The lines that are due for an operation: none unless it is a push that is granted, and a line
for a growth exactly if the push found every slot taken. -/
def due (s : Slots) (op : Operation) : List String :=
  match op, (s.step op).answer with
  | .push v, .ok (.index index) =>
    if s.size = s.capacity then
      [growLine s.capacity (s.step op).state.capacity, writeLine index v]
    else [writeLine index v]
  | _, _ => []

def dueAll : Slots → List Operation → List (List String)
  | _, [] => []
  | s, op :: ops => s.due op :: (s.step op).state.dueAll ops

variable {s : Slots}

theorem make_traced (origin : Origin) :
    (origin.traced true).make.map Prod.fst = (origin.traced false).make.map (·.1.traced true) := by
  cases origin with
  | empty config => rfl
  | create count capacity config =>
    simp only [Origin.traced, Origin.make, Slots.create, SlotsConfig.traced,
      SlotsConfig.outOfMemory, SlotsConfig.reserve]
    split_ifs <;> rfl

theorem push_traced (s : Slots) (on : Bool) (v : Value) :
    ((s.traced on).push v).answer = (s.push v).answer ∧
      ((s.traced on).push v).state = (s.push v).state.traced on := by
  rcases Nat.lt_or_ge s.size s.capacity with hr | hf
  · rw [push_of_room v hr, push_of_room (s := s.traced on) v hr]
    exact ⟨rfl, rfl⟩
  · cases hg : s.config.grownCapacity s.capacity with
    | ok capacity =>
      rw [push_of_full v hf hg, push_of_full (s := s.traced on) v hf hg]
      exact ⟨rfl, rfl⟩
    | error fault =>
      rw [push_of_refused v hf hg, push_of_refused (s := s.traced on) v hf hg]
      exact ⟨rfl, rfl⟩

theorem step_traced (s : Slots) (on : Bool) (op : Operation) :
    ((s.traced on).step op).answer = (s.step op).answer ∧
      ((s.traced on).step op).state = (s.step op).state.traced on := by
  cases op with
  | push v =>
    obtain ⟨ha, hs⟩ := s.push_traced on v
    exact ⟨congrArg (Except.map Answer.index) ha, hs⟩
  | get index => exact ⟨rfl, rfl⟩
  | set index v =>
    have hg : (s.traced on).get index = s.get index := rfl
    simp only [step, Outcome.map, Slots.set, hg]
    cases s.get index <;> exact ⟨rfl, rfl⟩
  | pop =>
    have hk : (s.traced on).peek = s.peek := rfl
    simp only [step, Outcome.map, pop, hk]
    cases s.peek <;> exact ⟨rfl, rfl⟩
  | peek => exact ⟨rfl, rfl⟩
  | clear => exact ⟨rfl, rfl⟩
  | copy branch => cases branch <;> exact ⟨rfl, rfl⟩

theorem run_traced (s : Slots) (on : Bool) (ops : List Operation) :
    (s.traced on).run ops = (s.run ops).traced on ∧
      (s.traced on).transcript ops = s.transcript ops := by
  induction ops generalizing s with
  | nil => exact ⟨rfl, rfl⟩
  | cons op ops ih =>
    obtain ⟨ha, hs⟩ := s.step_traced on op
    obtain ⟨hrun, hanswers⟩ := ih (s.step op).state
    rw [run, transcript, hs, ha, hrun, hanswers]
    exact ⟨rfl, rfl⟩

theorem trace_step {op : Operation} (h : ∀ v, op ≠ .push v) : (s.step op).trace = [] := by
  cases op with
  | push v => exact absurd rfl (h v)
  | set index v =>
    simp only [step, Outcome.map, Slots.set]
    cases s.get index <;> rfl
  | pop =>
    simp only [step, Outcome.map, pop]
    cases s.peek <;> rfl
  | copy branch => cases branch <;> rfl
  | get | peek | clear => rfl

theorem due_eq_nil {op : Operation} (h : ∀ v, op ≠ .push v) : s.due op = [] := by
  cases op with
  | push v => exact absurd rfl (h v)
  | _ => rfl

theorem Effect.kept_of_ne_push {t : Slots} {op : Operation} {answer : Except Fault Answer}
    (h : Effect s op answer t) (hp : ∀ v, op ≠ .push v) :
    t.capacity = s.capacity ∧ t.counters = s.counters := by
  cases h with
  | kept op values _ _ => exact ⟨rfl, rfl⟩
  | appended v _ => exact absurd rfl (hp v)
  | grown v capacity _ _ => exact absurd rfl (hp v)

structure Truthful (s : Slots) (op : Operation) : Prop where
  lines : ((s.traced true).step op).trace.map TraceEvent.line = s.due op
  leads : Leads s.capacity (growths ((s.traced true).step op).trace) (s.step op).state.capacity
  grows : (s.step op).state.counters.grows.toNat =
    s.counters.grows.toNat + (growths ((s.traced true).step op).trace).length

theorem truthful_of_ne_push {op : Operation} (h : ∀ v, op ≠ .push v) : Truthful s op := by
  obtain ⟨hcapacity, hcounters⟩ := (effect_step s op).kept_of_ne_push h
  have hsilent : ((s.traced true).step op).trace = [] := trace_step h
  refine ⟨?_, ?_, ?_⟩
  · rw [hsilent, due_eq_nil h]
    rfl
  · rw [hsilent, hcapacity]
    rfl
  · rw [hsilent, hcounters]
    rfl

theorem truthful_push (hs : Fits s) (v : Value) : Truthful s (.push v) := by
  rcases Nat.lt_or_ge s.size s.capacity with hr | hf
  · have hp := push_of_room v hr
    have ht := push_of_room (s := s.traced true) v hr
    constructor
    · simp only [step, due, Outcome.map, hp, ht, Except.map, if_neg (Nat.ne_of_lt hr)]
      rfl
    · simp only [step, Outcome.map, hp, ht]
      rfl
    · simp only [step, Outcome.map, hp, ht]
      rfl
  · have hfull : s.size = s.capacity := Nat.le_antisymm hs.size_le hf
    cases hg : s.config.grownCapacity s.capacity with
    | ok capacity =>
      have hp := push_of_full v hf hg
      have ht := push_of_full (s := s.traced true) v hf hg
      constructor
      · simp only [step, due, Outcome.map, hp, ht, Except.map, if_pos hfull]
        rfl
      · simp only [step, Outcome.map, hp, ht]
        exact ⟨rfl, rfl⟩
      · simp only [step, Outcome.map, hp, ht]
        exact grows_moved hs capacity
    | error fault =>
      have hp := push_of_refused v hf hg
      have ht := push_of_refused (s := s.traced true) v hf hg
      constructor
      · simp only [step, due, Outcome.map, hp, ht, Except.map]
        rfl
      · simp only [step, Outcome.map, hp, ht]
        rfl
      · simp only [step, Outcome.map, hp, ht]
        rfl

theorem truthful_step (hs : Fits s) (op : Operation) : Truthful s op := by
  cases op with
  | push v => exact truthful_push hs v
  | _ => exact truthful_of_ne_push fun _ => Operation.noConfusion

theorem trace_step_of_untraced (h : s.config.trace = false) (op : Operation) :
    (s.step op).trace = [] := by
  have silent (events : List TraceEvent) : s.config.reported events = [] := by
    rw [SlotsConfig.reported, h]
    rfl
  cases op with
  | push v =>
    change (s.push v).trace = []
    rcases s.push_cases v with ⟨_, hp⟩ | ⟨capacity, _, _, hp⟩ | ⟨requested, _, hp⟩
    · rw [hp, silent]
    · rw [hp, silent]
    · rw [hp]
      rfl
  | _ => exact trace_step fun _ => Operation.noConfusion

theorem reports_of_untraced (h : s.config.trace = false) {ops : List Operation}
    {report : List TraceEvent} (hr : report ∈ s.reports ops) : report = [] := by
  induction ops generalizing s with
  | nil => exact nomatch hr
  | cons op ops ih =>
    rcases List.mem_cons.1 hr with rfl | hr
    · exact trace_step_of_untraced h op
    · have hc : (s.step op).state.config = s.config := (change_step s op).config_eq
      exact ih (hc ▸ h) hr

theorem truthful_run (hs : Fits s) (ops : List Operation) :
    ((s.traced true).reports ops).map (·.map TraceEvent.line) = s.dueAll ops ∧
      Leads s.capacity (growths ((s.traced true).reports ops).flatten) (s.run ops).capacity ∧
      (s.run ops).counters.grows.toNat =
        s.counters.grows.toNat + (growths ((s.traced true).reports ops).flatten).length := by
  induction ops generalizing s with
  | nil => exact ⟨rfl, rfl, rfl⟩
  | cons op ops ih =>
    have hstep : Truthful s op := truthful_step hs op
    have hstate := (s.step_traced true op).2
    obtain ⟨hlines, hleads, hgrows⟩ := ih (fits_change hs (change_step s op))
    have happ : growths ((s.traced true).reports (op :: ops)).flatten =
        growths ((s.traced true).step op).trace ++
          growths (((s.step op).state.traced true).reports ops).flatten := by
      rw [reports, hstate, List.flatten_cons, growths, List.filterMap_append]
      rfl
    refine ⟨?_, ?_, ?_⟩
    · rw [reports, hstate, List.map_cons, hstep.lines, hlines]
      rfl
    · rw [happ]
      exact leads_append hstep.leads hleads
    · rw [happ, run, hgrows, hstep.grows, List.length_append, Nat.add_assoc]

theorem lines_of_creation {origin : Origin} {loud : Slots × List TraceEvent}
    (h : (origin.traced true).make = .ok loud) : loud.2.map TraceEvent.line = origin.due := by
  cases origin with
  | empty config =>
    cases h
    rfl
  | create count capacity config =>
    obtain ⟨_, _, _, rfl⟩ := create_eq_ok.1 h
    rfl

theorem silent_creation {origin : Origin} {quiet : Slots × List TraceEvent}
    (h : (origin.traced false).make = .ok quiet) : quiet.2 = [] ∧ quiet.1.config.trace = false := by
  cases origin with
  | empty config =>
    cases h
    exact ⟨rfl, rfl⟩
  | create count capacity config =>
    obtain ⟨_, _, _, rfl⟩ := create_eq_ok.1 h
    exact ⟨rfl, rfl⟩

/-- With tracing and without, an array comes into being in the same way or is refused for the same
reason, and the same operations get the same answers and leave the same array, but for the switch.
Untraced, nothing is written. Traced, exactly the lines that are due are written, step by step, and
the growths in them lead from the first capacity to the last, as many as the array has counted. -/
theorem tracing_only_reports (origin : Origin) :
    (origin.traced true).make.map Prod.fst = (origin.traced false).make.map (·.1.traced true) ∧
    ∀ loud quiet, (origin.traced true).make = .ok loud → (origin.traced false).make = .ok quiet →
      loud.2.map TraceEvent.line = origin.due ∧ quiet.2 = [] ∧
      ∀ ops,
        let s := quiet.1.run ops
        let grown := growths (loud.1.reports ops).flatten
        loud.1.run ops = s.traced true ∧ loud.1.transcript ops = quiet.1.transcript ops ∧
        (loud.1.reports ops).map (·.map TraceEvent.line) = quiet.1.dueAll ops ∧
        (∀ report ∈ quiet.1.reports ops, report = []) ∧
        (loud.1.run ops).dispose.map TraceEvent.line = [disposeLine s.size s.capacity] ∧
        s.dispose = [] ∧
        Leads origin.capacity grown s.capacity ∧ grown.length = s.counters.grows.toNat := by
  refine ⟨make_traced origin, ?_⟩
  intro loud quiet hloud hquiet
  obtain ⟨hsilent, hoff⟩ := silent_creation hquiet
  refine ⟨lines_of_creation hloud, hsilent, ?_⟩
  intro ops s grown
  have hsame : loud.1 = quiet.1.traced true := by
    have hmade := make_traced origin
    rw [hloud, hquiet] at hmade
    exact Except.ok.inj hmade
  obtain ⟨hrun, hanswers⟩ := quiet.1.run_traced true ops
  obtain ⟨hlines, hleads, hgrows⟩ := truthful_run (fits_make hquiet) ops
  have hcapacity : quiet.1.capacity = origin.capacity := by
    rw [capacity_make hquiet]
    cases origin <;> rfl
  have hs : s.config.trace = false := by
    rw [config_run]
    exact hoff
  rw [← hsame] at hrun hanswers hlines hleads hgrows
  rw [counters_make hquiet, UInt64.toNat_zero, Nat.zero_add] at hgrows
  rw [hcapacity] at hleads
  refine ⟨hrun, hanswers, hlines, fun _ => reports_of_untraced hoff, ?_, ?_, hleads, hgrows.symm⟩
  · rw [hrun]
    rfl
  · rw [dispose, SlotsConfig.reported, hs]
    rfl

theorem tracing_only_reports_capped :
    let origin : Origin := .create 1 2 { growth := ⟨0, 1⟩, maxCapacity := some 3 }
    let ops : List Operation :=
      [.push (.str ⟨7, .ofBytes [104, 105]⟩), .push (.int 4), .copy .copy, .push (.int 5), .pop]
    ∃ loud quiet, (origin.traced true).make = .ok loud ∧ (origin.traced false).make = .ok quiet ∧
      loud.2.map TraceEvent.line = origin.due ∧ quiet.2 = [] ∧
      let s := quiet.1.run ops
      let grown := growths (loud.1.reports ops).flatten
      quiet.1.dueAll ops = [[writeLine 1 (.str ⟨7, .ofBytes [104, 105]⟩)],
          [growLine 2 3, writeLine 2 (.int 4)], [], [], []] ∧
        loud.1.run ops = s.traced true ∧ loud.1.transcript ops = quiet.1.transcript ops ∧
        (loud.1.reports ops).map (·.map TraceEvent.line) = quiet.1.dueAll ops ∧
        (∀ report ∈ quiet.1.reports ops, report = []) ∧
        (loud.1.run ops).dispose.map TraceEvent.line = [disposeLine s.size s.capacity] ∧
        s.dispose = [] ∧
        Leads origin.capacity grown s.capacity ∧ grown.length = s.counters.grows.toNat := by
  intro origin ops
  obtain ⟨hlines, hsilent, hrun⟩ := (tracing_only_reports origin).2 _ _ rfl rfl
  exact ⟨_, _, rfl, rfl, hlines, hsilent, rfl, hrun ops⟩

end Slots

end ValueStorage
