import ValueStorage.Proofs.HeapBudget
import ValueStorage.Proofs.HeapLineage

/-! Heaps under observation. Tracing a heap changes nothing but what is written, and the account of the
heap can be told from what is written: the bytes and objects of the lines of allocations, less those
of the lines of frees, are what the heap has on its account. -/

namespace ValueStorage

namespace TraceEvent

def made? : TraceEvent → Option Nat
  | allocate _ bytes => some bytes
  | _ => none

def freed? : TraceEvent → Option Nat
  | free _ bytes => some bytes
  | _ => none

def isIgnored : TraceEvent → Bool
  | freeIgnored _ => true
  | _ => false

end TraceEvent

def allocations (events : List TraceEvent) : List Nat := events.filterMap TraceEvent.made?

def releases (events : List TraceEvent) : List Nat := events.filterMap TraceEvent.freed?

namespace Heap

def traced (h : Heap) (on : Bool) : Heap := { h with trace := on }

variable {α : Type} {h : Heap}

theorem free_traced (h : Heap) (on : Bool) (kind : RefKind) (handle : Handle α) :
    ((h.traced on).free kind handle).answer = (h.free kind handle).answer ∧
      ((h.traced on).free kind handle).state = (h.free kind handle).state.traced on := by
  rw [free_answer, free_answer, free_state, free_state]
  exact ⟨rfl, rfl⟩

theorem allocate_traced (h : Heap) (on : Bool) (kind : RefKind) (identity bytes : Nat) (target : α) :
    ((h.traced on).allocate kind identity bytes target).answer =
        (h.allocate kind identity bytes target).answer ∧
      ((h.traced on).allocate kind identity bytes target).state =
        (h.allocate kind identity bytes target).state.traced on := by
  by_cases hr : h.HasRoom bytes
  · have ht : (h.traced on).HasRoom bytes := ⟨hr.word, hr.limit⟩
    unfold allocate
    rw [reserve_of_room hr, reserve_of_room ht]
    exact ⟨rfl, rfl⟩
  · have ht : ¬ (h.traced on).HasRoom bytes := fun ht => hr ⟨ht.word, ht.limit⟩
    rw [allocate_of_no_room hr, allocate_of_no_room ht]
    exact ⟨rfl, rfl⟩

def freeEvent (h : Heap) (kind : RefKind) (identity : Nat) : TraceEvent :=
  match h.block? identity with
  | some block => .free kind block.bytes
  | none => .freeIgnored kind

theorem free_trace (h : Heap) (kind : RefKind) (handle : Handle α) :
    (h.free kind handle).trace = h.reported [h.freeEvent kind handle.identity] := by
  cases hb : h.block? handle.identity <;> simp only [free, freeEvent, hb]

theorem silent_allocate (h : Heap) (kind : RefKind) (identity bytes : Nat) (target : α) :
    ((h.traced false).allocate kind identity bytes target).trace = [] := by
  by_cases hr : (h.traced false).HasRoom bytes
  · unfold allocate
    rw [reserve_of_room hr]
    rfl
  · rw [allocate_of_no_room hr]
    rfl

end Heap

namespace HeapWorld

open Heap

variable {w : HeapWorld} {i : Nat} {h : Heap} {limit : Option Nat} {script : List Request}

def traced (w : HeapWorld) (on : Bool) : HeapWorld := w.mapHeaps (·.traced on)

theorem step_traced (w : HeapWorld) (on : Bool) (r : Request) :
    ((w.traced on).step r.action).answer = (w.step r.action).answer ∧
      ((w.traced on).step r.action).state = (w.step r.action).state.traced on := by
  have allocation {a : Action} {t : Target} (ha : a.allocation? = some (0, t)) :
      ((w.traced on).step a).answer = (w.step a).answer ∧
        ((w.traced on).step a).state = (w.step a).state.traced on := by
    obtain ⟨α, target, form, _, _, hform⟩ := step_allocation ha
    rw [hform w, hform (w.traced on)]
    refine w.ask_mapHeaps (·.traced on) 0 _ [t] fun h _ => ?_
    obtain ⟨hanswer, hstate⟩ := h.allocate_traced on t.kind w.objects.length t.bytes.length target
    exact ⟨congrArg (Except.map form) hanswer, hstate⟩
  cases r with
  | make t => exact ⟨rfl, rfl⟩
  | allocString s | allocStringValue s | allocObject o => exact allocation rfl
  | free identity =>
    cases ht : w.objects[identity]? with
    | none =>
      have htraced : (w.traced on).objects[identity]? = none := ht
      simp only [Request.action, step, ht, htraced, and_self]
    | some t =>
      obtain ⟨α, kind, handle, hform⟩ := free_form 0 identity t
      change ((w.traced on).step (.free 0 identity)).answer = (w.step (.free 0 identity)).answer ∧
        ((w.traced on).step (.free 0 identity)).state = (w.step (.free 0 identity)).state.traced on
      rw [hform w ht, hform (w.traced on) ht]
      refine w.ask_mapHeaps (·.traced on) 0 _ [] fun h _ => ?_
      obtain ⟨hanswer, hstate⟩ := h.free_traced on kind handle
      exact ⟨congrArg (Except.map Answer.freed) hanswer, hstate⟩

def reports : HeapWorld → List Request → List (List TraceEvent)
  | _, [] => []
  | w, r :: script => (w.step r.action).trace :: (w.step r.action).state.reports script

/-! The lines of the trace of a heap. -/

def madeLine (kind : RefKind) (bytes : Nat) : String :=
  "[valuecore] " ++ ("heap alloc " ++ kind.name ++ " (" ++ toString bytes ++ " bytes)") ++ "\n"

def freedLine (kind : RefKind) (bytes : Nat) : String :=
  "[valuecore] " ++ ("heap free " ++ kind.name ++ " (" ++ toString bytes ++ " bytes)") ++ "\n"

def ignoredLine (kind : RefKind) : String :=
  "[valuecore] " ++ ("heap free " ++ kind.name ++ " ignored (not live)") ++ "\n"

/-- The line that is due for a request. A free of an object there is has one in any case, and what makes
an object on the heap has one if it is granted. -/
def due (w : HeapWorld) (r : Request) : List String :=
  match r, (w.step r.action).answer with
  | .free identity, .ok (.freed live) => w.objects[identity]?.toList.map fun t =>
    if live then freedLine t.kind t.bytes.length else ignoredLine t.kind
  | r, .ok _ => r.target?.toList.map fun t => madeLine t.kind t.bytes.length
  | _, .error _ => []

def dueAll : HeapWorld → List Request → List (List String)
  | _, [] => []
  | w, r :: script => w.due r :: (w.step r.action).state.dueAll script

def Seen.inVain (s : Seen) : Bool :=
  match s.answer with
  | .ok (.freed live) => !live
  | _ => false

theorem trace_of_room {a : Action} {t : Target} (ha : a.allocation? = some (i, t))
    (hi : w.heaps[i]? = some h) (hr : h.HasRoom t.bytes.length)
    (hn : h.block? w.objects.length = none) :
    (w.step a).trace = h.reported [.allocate t.kind t.bytes.length] := by
  obtain ⟨α, target, answer, _, _, hs⟩ := step_allocation ha
  rw [hs, ask, hi]
  simp only [allocate_of_room hr hn]
  rfl

theorem trace_of_free {identity : Nat} {t : Target} (ht : w.objects[identity]? = some t)
    (hi : w.heaps[i]? = some h) :
    (w.step (.free i identity)).trace = h.reported [h.freeEvent t.kind identity] := by
  cases t with
  | string s =>
    simp only [step, ht, ask, hi]
    exact h.free_trace .string ⟨identity, s⟩
  | object o =>
    simp only [step, ht, ask, hi]
    exact h.free_trace .object ⟨identity, o⟩

structure Told (w : HeapWorld) (r : Request) (report : List TraceEvent) : Prop where
  lone : ∃ g, (w.step r.action).state.heaps = [g]
  lines : report.map TraceEvent.line = w.due r
  bytes : (w.step r.action).state.allocated + (releases report).sum =
    w.allocated + (allocations report).sum
  objects : (w.step r.action).state.objectCount + (releases report).length =
    w.objectCount + (allocations report).length
  ignored : report.countP TraceEvent.isIgnored = if (w.seen r).inVain then 1 else 0

theorem allocated_of_heaps (hw : w.heaps = [h]) :
    w.allocated = h.allocated ∧ w.objectCount = h.objectCount := by
  rw [allocated, objectCount, hw]
  exact ⟨rfl, rfl⟩

theorem due_of_granted {r : Request} {t : Target} (ht : r.target? = some t) {answer : Answer}
    (hok : (w.step r.action).answer = .ok answer) :
    w.due r = [madeLine t.kind t.bytes.length] := by
  unfold due
  rw [hok]
  cases r with
  | make t | free identity => exact nomatch ht
  | allocString s | allocStringValue s | allocObject o =>
    cases ht
    rfl

theorem due_of_refused {r : Request} {fault : Fault}
    (hf : (w.step r.action).answer = .error fault) : w.due r = [] := by
  unfold due
  rw [hf]
  cases r <;> rfl

theorem due_of_done {r : Request} (ht : r.target? = none)
    (hd : (w.step r.action).answer = .ok .done) : w.due r = [] := by
  unfold due
  rw [hd]
  cases r with
  | make t | free identity => rfl
  | allocString s | allocStringValue s | allocObject o => exact nomatch ht

theorem due_of_freed {identity : Nat} {t : Target} (ht : w.objects[identity]? = some t) {live : Bool}
    (ha : (w.step (.free 0 identity)).answer = .ok (.freed live)) :
    w.due (.free identity) =
      [if live then freedLine t.kind t.bytes.length else ignoredLine t.kind] := by
  unfold due Request.action
  simp only [ha, ht, Option.toList_some, List.map_cons, List.map_nil]

theorem told_of_silence (hw : w.heaps = [h]) {r : Request}
    (hstate : (w.step r.action).state.heaps = [h]) (hdue : w.due r = [])
    (hvain : (w.seen r).inVain = false) : Told w r [] := by
  refine ⟨⟨h, hstate⟩, hdue.symm, ?_, ?_, ?_⟩
  · rw [(allocated_of_heaps hstate).1, (allocated_of_heaps hw).1]
    rfl
  · rw [(allocated_of_heaps hstate).2, (allocated_of_heaps hw).2]
    rfl
  · rw [hvain]
    rfl

theorem inVain_of_made {r : Request} {answer : Answer} (hok : (w.step r.action).answer = .ok answer)
    {identity : Nat} (hmade : answer.made? = some identity) : (w.seen r).inVain = false := by
  unfold Seen.inVain seen
  rw [hok]
  cases answer with
  | freed live => exact nomatch hmade
  | _ => rfl

theorem heaps_traced (hw : w.heaps = [h]) : (w.traced true).heaps[0]? = some (h.traced true) := by
  simp [traced, mapHeaps, hw]

theorem told_allocation (hw : w.heaps = [h]) (hb : h.Balanced w.objects) {r : Request} {t : Target}
    (ht : r.target? = some t) : Told w r ((w.traced true).step r.action).trace := by
  have ha : r.action.allocation? = some (0, t) := target?_eq_some.1 ht
  have hi : w.heaps[0]? = some h := by
    rw [hw]
    rfl
  by_cases hr : h.HasRoom t.bytes.length
  · have hroom : (h.traced true).HasRoom t.bytes.length := ⟨hr.word, hr.limit⟩
    have htrace : ((w.traced true).step r.action).trace = [.allocate t.kind t.bytes.length] :=
      trace_of_room ha (heaps_traced hw) hroom hb.fresh
    obtain ⟨⟨answer, hok, hmade⟩, hstate⟩ := step_of_room ha hi hr hb.fresh
    have hheaps : (w.step r.action).state.heaps = [{ h with
        allocated := h.allocated + t.bytes.length
        live := ⟨w.objects.length, t.bytes.length⟩ :: h.live }] := by
      rw [hstate, hw]
      rfl
    rw [htrace]
    refine ⟨⟨_, hheaps⟩, ?_, ?_, ?_, ?_⟩
    · rw [due_of_granted ht hok]
      rfl
    · rw [(allocated_of_heaps hheaps).1, (allocated_of_heaps hw).1]
      rfl
    · rw [(allocated_of_heaps hheaps).2, (allocated_of_heaps hw).2]
      rfl
    · rw [inVain_of_made hok hmade]
      rfl
  · have hnone : ¬ (h.traced true).HasRoom t.bytes.length := fun hr' => hr ⟨hr'.word, hr'.limit⟩
    have hs : w.step r.action = .refuse w (.outOfMemory t.bytes.length "bytes" h.limit) :=
      step_of_no_room ha hi hr
    rw [step_of_no_room ha (heaps_traced hw) hnone]
    refine told_of_silence hw ?_ (due_of_refused (congrArg Outcome.answer hs)) ?_
    · rw [hs]
      exact hw
    · unfold Seen.inVain seen
      rw [hs]
      rfl

theorem told_free (hw : w.heaps = [h]) (hb : h.Balanced w.objects) {identity : Nat} {t : Target}
    (ht : w.objects[identity]? = some t) :
    Told w (.free identity) ((w.traced true).step (.free 0 identity)).trace := by
  have hi : w.heaps[0]? = some h := by
    rw [hw]
    rfl
  have htarget : (w.traced true).objects[identity]? = some t := ht
  have htrace : ((w.traced true).step (.free 0 identity)).trace = [h.freeEvent t.kind identity] :=
    trace_of_free htarget (heaps_traced hw)
  obtain ⟨hanswer, hstate⟩ := step_free_of_object ht hi
  have hheaps : (w.step (.free 0 identity)).state.heaps = [h.release identity] := by
    rw [hstate, hw]
    rfl
  obtain ⟨hbytes, hobjects⟩ := allocated_of_heaps hheaps
  obtain ⟨hbytes', hobjects'⟩ := allocated_of_heaps hw
  have hdue := due_of_freed ht hanswer
  have hvain : (w.seen (.free identity)).inVain = !(h.block? identity).isSome := by
    unfold Seen.inVain seen Request.action
    rw [hanswer]
  rw [htrace]
  unfold freeEvent
  cases hf : h.block? identity with
  | some block =>
    have hl : identity ∈ h.identities := block?_isSome.1 (Option.isSome_of_eq_some hf)
    -- the account of the object is over the bytes that it has
    obtain ⟨u, hu, haccount, _⟩ := hb.account hl
    cases ht.symm.trans hu
    cases hf.symm.trans haccount
    obtain ⟨hcredit, hcount⟩ := release_credits hb ht hl
    rw [hf] at hdue hvain
    refine ⟨⟨_, hheaps⟩, hdue.symm, ?_, ?_, ?_⟩
    · exact (congrArg (· + t.bytes.length) hbytes).trans (hcredit.trans hbytes'.symm)
    · exact (congrArg (· + 1) hobjects).trans (hcount.trans hobjects'.symm)
    · rw [hvain]
      rfl
  | none =>
    rw [hf] at hdue hvain
    rw [release_of_not_live hf] at hheaps hbytes hobjects
    refine ⟨⟨_, hheaps⟩, hdue.symm, hbytes.trans hbytes'.symm, hobjects.trans hobjects'.symm, ?_⟩
    rw [hvain]
    rfl

theorem told_request (hw : w.heaps = [h]) (hb : h.Balanced w.objects) (r : Request) :
    Told w r ((w.traced true).step r.action).trace := by
  cases r with
  | make t => exact told_of_silence hw hw rfl rfl
  | allocString s | allocStringValue s | allocObject o => exact told_allocation hw hb rfl
  | free identity =>
    cases ht : w.objects[identity]? with
    | some t => exact told_free hw hb ht
    | none =>
      have silent (v : HeapWorld) (hv : v.objects[identity]? = none) :
          v.step (Request.free identity).action = ⟨v, .ok .done, []⟩ := by
        simp only [Request.action, step, hv]
      rw [silent (w.traced true) ht]
      refine told_of_silence hw ?_ (due_of_done rfl ?_) ?_
      · rw [silent w ht]
        exact hw
      · rw [silent w ht]
      · unfold Seen.inVain seen
        rw [silent w ht]

theorem allocations_append (first rest : List TraceEvent) :
    allocations (first ++ rest) = allocations first ++ allocations rest := List.filterMap_append

theorem releases_append (first rest : List TraceEvent) :
    releases (first ++ rest) = releases first ++ releases rest := List.filterMap_append

structure ToldAll (w : HeapWorld) (script : List Request) (report : List (List TraceEvent)) : Prop where
  lines : report.map (·.map TraceEvent.line) = w.dueAll script
  bytes : (w.after script).allocated + (releases report.flatten).sum =
    w.allocated + (allocations report.flatten).sum
  objects : (w.after script).objectCount + (releases report.flatten).length =
    w.objectCount + (allocations report.flatten).length
  ignored : report.flatten.countP TraceEvent.isIgnored = (w.observed script).countP Seen.inVain

theorem toldAll (hw : ∃ h, w.heaps = [h]) (hs : w.Sound) (script : List Request) :
    ToldAll w script ((w.traced true).reports script) := by
  induction script generalizing w with
  | nil => exact ⟨rfl, rfl, rfl, rfl⟩
  | cons r script ih =>
    obtain ⟨h, hw⟩ := hw
    have hb : h.Balanced w.objects := hs h (hw ▸ List.mem_singleton_self h)
    have first : Told w r ((w.traced true).step r.action).trace := told_request hw hb r
    have rest := ih first.lone (keeps hs r.action).sound
    have hreports : (w.traced true).reports (r :: script) =
        ((w.traced true).step r.action).trace ::
          ((w.step r.action).state.traced true).reports script := by
      rw [reports, (w.step_traced true r).2]
    rw [hreports]
    constructor
    · rw [List.map_cons, first.lines, rest.lines]
      rfl
    · have hfirst := first.bytes
      have hrest := rest.bytes
      change ((w.step r.action).state.after script).allocated + _ = _
      rw [List.flatten_cons, releases_append, allocations_append, List.sum_append, List.sum_append]
      omega
    · have hfirst := first.objects
      have hrest := rest.objects
      change ((w.step r.action).state.after script).objectCount + _ = _
      rw [List.flatten_cons, releases_append, allocations_append, List.length_append,
        List.length_append]
      omega
    · rw [List.flatten_cons, List.countP_append, first.ignored, rest.ignored, observed,
        List.countP_cons, Nat.add_comm]

theorem reports_take (w : HeapWorld) (script : List Request) (n : Nat) :
    w.reports (script.take n) = (w.reports script).take n := by
  induction script generalizing w n with
  | nil => simp [reports]
  | cons r script ih =>
    cases n with
    | zero => rfl
    | succ n => exact congrArg _ (ih (w.step r.action).state n)

theorem after_traced (w : HeapWorld) (on : Bool) (script : List Request) :
    (w.traced on).after script = (w.after script).traced on := by
  induction script generalizing w with
  | nil => rfl
  | cons r script ih =>
    change ((w.traced on).step r.action).state.after script = _
    rw [(w.step_traced on r).2, ih]
    rfl

theorem allocated_traced (w : HeapWorld) (on : Bool) :
    (w.traced on).allocated = w.allocated ∧ (w.traced on).objectCount = w.objectCount := by
  obtain ⟨heaps, objects⟩ := w
  cases heaps <;> exact ⟨rfl, rfl⟩

theorem observed_traced (w : HeapWorld) (on : Bool) (script : List Request) :
    (w.traced on).observed script = w.observed script := by
  induction script generalizing w with
  | nil => rfl
  | cons r script ih =>
    obtain ⟨hanswer, hstate⟩ := w.step_traced on r
    obtain ⟨hbytes, hobjects⟩ := (w.step r.action).state.allocated_traced on
    rw [observed, observed, seen, seen, hanswer, hstate, hbytes, hobjects, ih]

theorem silent_ask {request : Heap → Outcome Heap Answer} {made : List Target}
    (hr : ∀ h : Heap, (request (h.traced false)).trace = []) :
    ((w.traced false).ask i request made).trace = [] := by
  have hi : (w.traced false).heaps[i]? = w.heaps[i]?.map (·.traced false) := List.getElem?_map
  unfold ask
  rw [hi]
  cases w.heaps[i]? with
  | none => rfl
  | some h => exact hr h

theorem silent_step (w : HeapWorld) (r : Request) : ((w.traced false).step r.action).trace = [] := by
  have allocation {a : Action} {t : Target} (ha : a.allocation? = some (0, t)) :
      ((w.traced false).step a).trace = [] := by
    obtain ⟨α, target, form, _, _, hform⟩ := step_allocation ha
    rw [hform (w.traced false)]
    exact silent_ask fun h => h.silent_allocate t.kind w.objects.length t.bytes.length target
  cases r with
  | make t => rfl
  | allocString s | allocStringValue s | allocObject o => exact allocation rfl
  | free identity =>
    change ((w.traced false).step (.free 0 identity)).trace = []
    cases ht : (w.traced false).objects[identity]? with
    | none => simp only [step, ht]
    | some t =>
      obtain ⟨α, kind, handle, hform⟩ := free_form 0 identity t
      rw [hform (w.traced false) ht]
      exact silent_ask fun (h : Heap) => (h.traced false).free_trace kind handle

theorem silent_reports (w : HeapWorld) (script : List Request) :
    ((w.traced false).reports script).flatten = [] := by
  induction script generalizing w with
  | nil => rfl
  | cons r script ih =>
    rw [reports, List.flatten_cons, w.silent_step r, (w.step_traced false r).2]
    exact ih (w.step r.action).state

/-- Traced and not, a heap gives the same answers to a script and has the same account after every step,
and untraced it writes nothing. Traced, it writes exactly the lines that are due, request by request.
From the lines that were written up to any point its account can be told: the bytes and the objects of
the allocations, less those of the frees that found their objects live, are the total and the count,
and there are as many frees that were ignored as were answered with no. -/
theorem trace_tells_account (limit : Option Nat) (script : List Request) :
    let quiet : HeapWorld := { heaps := [{ limit, trace := false }] }
    let loud : HeapWorld := { heaps := [{ limit, trace := true }] }
    loud.observed script = quiet.observed script ∧
    (∀ n, loud.after (script.take n) = (quiet.after (script.take n)).traced true) ∧
    (quiet.reports script).flatten = [] ∧
    (loud.reports script).map (·.map TraceEvent.line) = quiet.dueAll script ∧
    ∀ n,
      let w := loud.after (script.take n)
      let events := ((loud.reports script).take n).flatten
      w.allocated + (releases events).sum = (allocations events).sum ∧
      w.objectCount + (releases events).length = (allocations events).length ∧
      events.countP TraceEvent.isIgnored = (loud.observed (script.take n)).countP Seen.inVain := by
  intro quiet loud
  have hs : quiet.Sound := sound_alone limit
  have told (script : List Request) : ToldAll quiet script (loud.reports script) :=
    toldAll ⟨_, rfl⟩ hs script
  refine ⟨quiet.observed_traced true script, fun n => quiet.after_traced true _,
    quiet.silent_reports script, (told script).lines, ?_⟩
  intro n w events
  have hw : w = (quiet.after (script.take n)).traced true := quiet.after_traced true _
  have hevents : events = (loud.reports (script.take n)).flatten := by
    rw [reports_take]
  have htold := told (script.take n)
  obtain ⟨hbytes, hobjects⟩ := (quiet.after (script.take n)).allocated_traced true
  rw [hw, hbytes, hobjects, hevents]
  refine ⟨?_, ?_, ?_⟩
  · exact htold.bytes.trans (Nat.zero_add _)
  · exact htold.objects.trans (Nat.zero_add _)
  · rw [htold.ignored]
    exact congrArg (List.countP Seen.inVain) (quiet.observed_traced true _).symm

example :
    (alone (some 4)).dueAll [.allocString (.ofBytes [104, 105]),
        .allocObject (.string (.ofBytes [1, 2, 3])), .make (.object (.string (.ofBytes [33]))),
        .free 0, .free 1, .free 0] =
      [["[valuecore] heap alloc string (2 bytes)\n"], [], [],
        ["[valuecore] heap free string (2 bytes)\n"],
        ["[valuecore] heap free object ignored (not live)\n"],
        ["[valuecore] heap free string ignored (not live)\n"]] := by
  decide

end HeapWorld

end ValueStorage
