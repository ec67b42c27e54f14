import ValueStorage.Heap

/-! Heaps that are alive together. They draw the identities of their objects from one supply, and so
does what is made on no heap, so that no identity is ever used twice. A heap can be asked to free any
object there is: one of its own, one of another heap, or one that no heap ever had. -/

namespace ValueStorage

inductive Target where
  | string (s : StringObject)
  | object (o : Object)

def Target.bytes : Target → List UInt8
  | string s => s.bytes
  | object o => o.contents.bytes

def Target.kind : Target → RefKind
  | string _ => .string
  | object _ => .object

def Target.value (identity : Nat) : Target → Value
  | string s => .str ⟨identity, s⟩
  | object o => .obj ⟨identity, o⟩

structure HeapWorld where
  heaps : List Heap := []
  /-- All objects that were ever made. The identity of an object is its place among them. -/
  objects : List Target := []

namespace HeapWorld

inductive Action where
  | new (limit : Option Nat) (trace : Bool)
  | copy (heap : Nat)
  | make (t : Target)
  | allocString (heap : Nat) (s : StringObject)
  | allocStringValue (heap : Nat) (s : StringObject)
  | allocObject (heap : Nat) (o : Object)
  | free (heap identity : Nat)

inductive Answer where
  | done
  | string (s : Handle StringObject)
  | object (o : Handle Object)
  | value (v : Value)
  | freed (live : Bool)

def Answer.made? : Answer → Option Nat
  | string s | value (.str s) => some s.identity
  | object o => some o.identity
  | _ => none

def Answer.value? : Answer → Option Value
  | string s => some (.str s)
  | object o => some (.obj o)
  | value v => some v
  | _ => none

def Action.allocation? : Action → Option (Nat × Target)
  | allocString i s | allocStringValue i s => some (i, .string s)
  | allocObject i o => some (i, .object o)
  | _ => none

def ask (w : HeapWorld) (i : Nat) (request : Heap → Outcome Heap Answer) (made : List Target) :
    Outcome HeapWorld Answer :=
  match w.heaps[i]? with
  | none => ⟨w, .ok .done, []⟩
  | some h =>
    let o := request h
    ⟨⟨w.heaps.set i o.state, if o.answer.isOk then w.objects ++ made else w.objects⟩,
      o.answer, o.trace⟩

def mapHeaps (w : HeapWorld) (change : Heap → Heap) : HeapWorld :=
  { w with heaps := w.heaps.map change }

def step (w : HeapWorld) : Action → Outcome HeapWorld Answer
  | .new limit trace => ⟨{ w with heaps := w.heaps ++ [{ limit, trace }] }, .ok .done, []⟩
  | .copy i => ⟨{ w with heaps := w.heaps ++ w.heaps[i]?.toList }, .ok .done, []⟩
  | .make t => ⟨{ w with objects := w.objects ++ [t] }, .ok .done, []⟩
  | .allocString i s =>
    w.ask i (fun h => (h.allocString w.objects.length s).map .string) [.string s]
  | .allocStringValue i s =>
    w.ask i (fun h => (h.allocStringValue w.objects.length s).map .value) [.string s]
  | .allocObject i o =>
    w.ask i (fun h => (h.allocObject w.objects.length o).map .object) [.object o]
  | .free i identity =>
    match w.objects[identity]? with
    | none => ⟨w, .ok .done, []⟩
    | some (.string s) => w.ask i (fun h => (h.freeString ⟨identity, s⟩).map .freed) []
    | some (.object o) => w.ask i (fun h => (h.freeObject ⟨identity, o⟩).map .freed) []

def run : HeapWorld → List Action → HeapWorld
  | w, [] => w
  | w, a :: as => (w.step a).state.run as

def transcript : HeapWorld → List Action → List (Except Fault Answer)
  | _, [] => []
  | w, a :: as => (w.step a).answer :: (w.step a).state.transcript as

/-- What an answer adds to the record of which objects are live on which heap. An object is live from
the answer that made it to the answer that freed it, on the heap that was asked and on the copies that
were taken of that heap in between. No heap is looked into. -/
def recorded (live : List (List Nat)) : Action → Except Fault Answer → List (List Nat)
  | .new _ _, _ => live ++ [[]]
  | .copy i, _ => live ++ live[i]?.toList
  | .allocString i _, .ok answer | .allocStringValue i _, .ok answer
  | .allocObject i _, .ok answer => live.modify i (answer.made?.toList ++ ·)
  | .free i identity, .ok (.freed true) => live.modify i (·.filter (· != identity))
  | _, _ => live

def record : HeapWorld → List (List Nat) → List Action → List (List Nat)
  | _, live, [] => live
  | w, live, a :: as => (w.step a).state.record (recorded live a (w.step a).answer) as

variable {w : HeapWorld} {i : Nat} {h : Heap}

theorem ask_mapHeaps (w : HeapWorld) (change : Heap → Heap) (i : Nat)
    (request : Heap → Outcome Heap Answer) (made : List Target)
    (hr : ∀ h, w.heaps[i]? = some h → (request (change h)).answer = (request h).answer ∧
      (request (change h)).state = change (request h).state) :
    ((w.mapHeaps change).ask i request made).answer = (w.ask i request made).answer ∧
      ((w.mapHeaps change).ask i request made).state =
        (w.ask i request made).state.mapHeaps change := by
  have hi : (w.mapHeaps change).heaps[i]? = w.heaps[i]?.map change := List.getElem?_map
  unfold ask
  rw [hi]
  cases hw : w.heaps[i]? with
  | none => exact ⟨rfl, rfl⟩
  | some h =>
    obtain ⟨hanswer, hstate⟩ := hr h hw
    simp only [Option.map_some, hanswer, hstate, mapHeaps, List.map_set, true_and]

theorem recorded_allocation {a : Action} {t : Target} (ha : a.allocation? = some (i, t))
    (live : List (List Nat)) (answer : Answer) :
    recorded live a (.ok answer) = live.modify i (answer.made?.toList ++ ·) := by
  cases a with
  | allocString j s | allocStringValue j s | allocObject j o =>
    cases ha
    rfl
  | _ => exact nomatch ha

theorem recorded_refused {a : Action} {t : Target} (ha : a.allocation? = some (i, t))
    (live : List (List Nat)) (fault : Fault) : recorded live a (.error fault) = live := by
  cases a with
  | allocString j s | allocStringValue j s | allocObject j o => rfl
  | _ => exact nomatch ha

theorem step_allocation {a : Action} {t : Target} (ha : a.allocation? = some (i, t)) :
    ∃ (α : Type) (target : α) (answer : Handle α → Answer),
      (∀ handle, (answer handle).made? = some handle.identity) ∧
      (∀ identity, (answer ⟨identity, target⟩).value? = some (t.value identity)) ∧
      ∀ w : HeapWorld, w.step a = w.ask i (fun h =>
        (h.allocate t.kind w.objects.length t.bytes.length target).map answer) [t] := by
  cases a with
  | allocString i s =>
    cases ha
    refine ⟨_, s, .string, fun _ => rfl, fun _ => rfl, fun w => ?_⟩
    rw [Target.bytes, s.length_bytes]
    rfl
  | allocStringValue i s =>
    cases ha
    refine ⟨_, s, fun made => .value (.str made), fun _ => rfl, fun _ => rfl, fun w => ?_⟩
    simp only [step, Heap.allocStringValue, Outcome.map_map, Target.bytes, s.length_bytes]
    rfl
  | allocObject i o =>
    cases ha
    refine ⟨_, o, .object, fun _ => rfl, fun _ => rfl, fun w => ?_⟩
    rw [Target.bytes, o.length_bytes]
    rfl
  | _ => exact nomatch ha

theorem step_of_no_heap {a : Action} {t : Target} (ha : a.allocation? = some (i, t))
    (hi : w.heaps[i]? = none) : w.step a = ⟨w, .ok .done, []⟩ := by
  obtain ⟨α, target, answer, _, _, hs⟩ := step_allocation ha
  rw [hs, ask, hi]

theorem step_of_room {a : Action} {t : Target} (ha : a.allocation? = some (i, t))
    (hi : w.heaps[i]? = some h) (hr : h.HasRoom t.bytes.length)
    (hn : h.block? w.objects.length = none) :
    (∃ answer, (w.step a).answer = .ok answer ∧ answer.made? = some w.objects.length) ∧
      (w.step a).state = ⟨w.heaps.set i { h with
          allocated := h.allocated + t.bytes.length,
          live := ⟨w.objects.length, t.bytes.length⟩ :: h.live }, w.objects ++ [t]⟩ := by
  obtain ⟨α, target, answer, hmade, _, hs⟩ := step_allocation ha
  rw [hs, ask, hi]
  simp only [Heap.allocate_of_room hr hn]
  exact ⟨⟨_, rfl, hmade _⟩, rfl⟩

theorem step_of_no_room {a : Action} {t : Target} (ha : a.allocation? = some (i, t))
    (hi : w.heaps[i]? = some h) (hr : ¬ h.HasRoom t.bytes.length) :
    w.step a = .refuse w (.outOfMemory t.bytes.length "bytes" h.limit) := by
  obtain ⟨α, target, answer, _, _, hs⟩ := step_allocation ha
  obtain ⟨hlt, rfl⟩ := List.getElem?_eq_some_iff.1 hi
  rw [hs, ask, hi]
  simp only [Heap.allocate_of_no_room hr, Outcome.map, Outcome.refuse, List.set_getElem_self]
  rfl

theorem value_of_allocation {a : Action} {t : Target} (ha : a.allocation? = some (i, t))
    {answer : Answer} (hok : (w.step a).answer = .ok answer) {v : Value}
    (hv : answer.value? = some v) :
    v = t.value w.objects.length ∧ (w.step a).state.objects = w.objects ++ [t] := by
  obtain ⟨α, target, form, _, hvalue, hs⟩ := step_allocation ha
  rw [hs, ask] at hok ⊢
  cases hi : w.heaps[i]? with
  | none =>
    rw [hi] at hok
    cases hok
    exact nomatch hv
  | some h =>
    rw [hi] at hok
    rcases h.allocate_answer t.kind w.objects.length t.bytes.length target with hg | ⟨fault, hg⟩
    · simp only [Outcome.map, hg, Except.map, Except.ok.injEq] at hok
      rw [← hok, hvalue] at hv
      refine ⟨(Option.some.inj hv).symm, ?_⟩
      simp only [Outcome.map, hg]
      rfl
    · simp only [Outcome.map, hg] at hok
      exact nomatch hok

theorem step_free_of_object {identity : Nat} {t : Target} (ht : w.objects[identity]? = some t)
    (hi : w.heaps[i]? = some h) :
    (w.step (.free i identity)).answer = .ok (.freed (h.block? identity).isSome) ∧
      (w.step (.free i identity)).state = { w with heaps := w.heaps.set i (h.release identity) } := by
  constructor
  · cases t <;> simp [step, ht, ask, hi, Outcome.map, Heap.freeString, Heap.freeObject,
      Heap.free_answer, Except.map]
  · cases t <;> simp [step, ht, ask, hi, Outcome.map, Heap.freeString, Heap.freeObject,
      Heap.free_state]

theorem step_free (w : HeapWorld) (i identity : Nat) :
    w.step (.free i identity) = ⟨w, .ok .done, []⟩ ∨ ∃ h, w.heaps[i]? = some h ∧
      (w.step (.free i identity)).answer = .ok (.freed (h.block? identity).isSome) ∧
      (w.step (.free i identity)).state = { w with heaps := w.heaps.set i (h.release identity) } := by
  cases ht : w.objects[identity]? with
  | none => exact .inl (by simp [step, ht])
  | some t => cases hi : w.heaps[i]? with
    | none => cases t <;> exact .inl (by simp [step, ht, ask, hi])
    | some h => exact .inr ⟨h, rfl, step_free_of_object ht hi⟩

end HeapWorld

end ValueStorage
