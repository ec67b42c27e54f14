import ValueStorage.Fault
import ValueStorage.Trace

/-!
What operations leave behind. An operation that is refused leaves a state as well, with whatever it
had changed by then.
-/
namespace ValueStorage

/-- The state after an operation, its answer or the fault that it met, and the events that were
reported on the way. -/
structure Outcome (σ α : Type) where
  state : σ
  answer : Except Fault α
  trace : List TraceEvent

namespace Outcome

variable {σ α β γ : Type}

def refuse (state : σ) (fault : Fault) : Outcome σ α := ⟨state, .error fault, []⟩

def map (f : α → β) (o : Outcome σ α) : Outcome σ β := ⟨o.state, o.answer.map f, o.trace⟩

theorem map_map (f : α → β) (g : β → γ) (o : Outcome σ α) :
    (o.map f).map g = o.map fun a => g (f a) := by
  obtain ⟨state, answer, trace⟩ := o
  cases answer <;> rfl

/-- What comes after an operation, unless it was refused. Its state and its reports stay in any
case. -/
def andThen (o : Outcome σ α) (next : σ → α → Outcome σ β) : Outcome σ β :=
  match o.answer with
  | .error fault => ⟨o.state, .error fault, o.trace⟩
  | .ok a =>
    let rest := next o.state a
    ⟨rest.state, rest.answer, o.trace ++ rest.trace⟩

end Outcome

end ValueStorage
