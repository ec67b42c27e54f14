import ValueStorage.Proofs.HeapAccounts

/-! The same script on a heap without a limit and on one with a limit. The limit goes unnoticed as
long as no total on the unlimited heap exceeds it, and it is noticed at the first allocation that
takes the total beyond. So the peak of the totals is the least limit that changes nothing. -/

namespace ValueStorage

theorem foldr_max_le {xs : List Nat} {n : Nat} : xs.foldr max 0 ≤ n ↔ ∀ x ∈ xs, x ≤ n := by
  induction xs with
  | nil => simp
  | cons x xs ih => simp [ih]

theorem exists_first_prefix {α : Type} {P : List α → Prop} (start : P []) (xs : List α) :
    (∀ before, before <+: xs → P before) ∨
      ∃ before x rest, xs = before ++ x :: rest ∧ (∀ earlier, earlier <+: before → P earlier) ∧
        ¬ P (before ++ [x]) := by
  induction xs using List.reverseRecOn with
  | nil =>
    left
    intro before hb
    rw [List.prefix_nil.1 hb]
    exact start
  | append_singleton xs x ih =>
    rcases ih with hall | ⟨before, y, rest, rfl, hall, hy⟩
    · by_cases hx : P (xs ++ [x])
      · left
        intro before hb
        rcases List.prefix_concat_iff.1 hb with rfl | hb
        · exact hx
        · exact hall before hb
      · exact .inr ⟨xs, x, [], rfl, hall, hx⟩
    · right
      refine ⟨before, y, rest ++ [x], ?_, hall, hy⟩
      rw [List.append_assoc, List.cons_append]

namespace Heap

def limited (h : Heap) (limit : Nat) : Heap := { h with limit := some limit }

variable {h : Heap} {limit : Nat}

theorem free_limited {α : Type} (h : Heap) (limit : Nat) (kind : RefKind) (handle : Handle α) :
    ((h.limited limit).free kind handle).answer = (h.free kind handle).answer ∧
      ((h.limited limit).free kind handle).state = (h.free kind handle).state.limited limit := by
  rw [free_answer, free_answer, free_state, free_state]
  exact ⟨rfl, rfl⟩

theorem allocate_limited {α : Type} {bytes : Nat} (hr : h.HasRoom bytes)
    (hl : (h.limited limit).HasRoom bytes) (kind : RefKind) (identity : Nat) (target : α) :
    ((h.limited limit).allocate kind identity bytes target).answer =
        (h.allocate kind identity bytes target).answer ∧
      ((h.limited limit).allocate kind identity bytes target).state =
        (h.allocate kind identity bytes target).state.limited limit := by
  unfold allocate
  rw [reserve_of_room hr, reserve_of_room hl]
  exact ⟨rfl, rfl⟩

end Heap

namespace HeapWorld

open Heap

/-- What can be asked of a script's only heap. Objects that it is asked to free have their number
among all objects, which were made on the heap or elsewhere. -/
inductive Request where
  | make (t : Target)
  | allocString (s : StringObject)
  | allocStringValue (s : StringObject)
  | allocObject (o : Object)
  | free (identity : Nat)

def Request.action : Request → Action
  | make t => .make t
  | allocString s => .allocString 0 s
  | allocStringValue s => .allocStringValue 0 s
  | allocObject o => .allocObject 0 o
  | free identity => .free 0 identity

def Request.target? (r : Request) : Option Target := r.action.allocation?.map Prod.snd

def alone (limit : Option Nat) : HeapWorld := { heaps := [{ limit }] }

def after (w : HeapWorld) (script : List Request) : HeapWorld := w.run (script.map Request.action)

def allocated (w : HeapWorld) : Nat := w.heaps.head?.elim 0 Heap.allocated

def objectCount (w : HeapWorld) : Nat := w.heaps.head?.elim 0 Heap.objectCount

structure Seen where
  answer : Except Fault Answer
  allocated : Nat
  objects : Nat

def seen (w : HeapWorld) (r : Request) : Seen :=
  ⟨(w.step r.action).answer, (w.step r.action).state.allocated, (w.step r.action).state.objectCount⟩

def observed : HeapWorld → List Request → List Seen
  | _, [] => []
  | w, r :: script => w.seen r :: (w.step r.action).state.observed script

def total (script : List Request) : Nat := ((alone none).after script).allocated

def peak (script : List Request) : Nat := (script.inits.map total).foldr max 0

/-- Without a limit, no allocation of the script takes the total out of the range of a word. -/
def FitsWord (script : List Request) : Prop :=
  ∀ before r t, before ++ [r] <+: script → r.target? = some t →
    total before + t.bytes.length ≤ Word.max

def limited (w : HeapWorld) (limit : Nat) : HeapWorld :=
  { w with heaps := w.heaps.map (·.limited limit) }

variable {w : HeapWorld} {limit : Nat} {script : List Request}

theorem run_append (w : HeapWorld) (as bs : List Action) :
    w.run (as ++ bs) = (w.run as).run bs := by
  induction as generalizing w with
  | nil => rfl
  | cons a as ih => exact ih (w.step a).state

theorem after_append (w : HeapWorld) (script rest : List Request) :
    w.after (script ++ rest) = (w.after script).after rest := by
  unfold after
  rw [List.map_append, run_append]

theorem observed_append (w : HeapWorld) (script rest : List Request) :
    w.observed (script ++ rest) = w.observed script ++ (w.after script).observed rest := by
  induction script generalizing w with
  | nil => rfl
  | cons r script ih => exact congrArg (w.seen r :: ·) (ih (w.step r.action).state)

theorem peak_le_iff : peak script ≤ limit ↔ ∀ before, before <+: script → total before ≤ limit := by
  simp only [peak, foldr_max_le, List.forall_mem_map, List.mem_inits]

theorem allocated_limited (w : HeapWorld) (limit : Nat) :
    (w.limited limit).allocated = w.allocated := by
  obtain ⟨heaps, objects⟩ := w
  cases heaps <;> rfl

theorem objectCount_limited (w : HeapWorld) (limit : Nat) :
    (w.limited limit).objectCount = w.objectCount := by
  obtain ⟨heaps, objects⟩ := w
  cases heaps <;> rfl

structure Unnoticed (limit : Nat) (w : HeapWorld) (a : Action) : Prop where
  answer : ((w.limited limit).step a).answer = (w.step a).answer
  state : ((w.limited limit).step a).state = (w.step a).state.limited limit

theorem ask_limited (w : HeapWorld) (limit i : Nat) (request : Heap → Outcome Heap Answer)
    (made : List Target)
    (hr : ∀ h, w.heaps[i]? = some h → (request (h.limited limit)).answer = (request h).answer ∧
      (request (h.limited limit)).state = (request h).state.limited limit) :
    ((w.limited limit).ask i request made).answer = (w.ask i request made).answer ∧
      ((w.limited limit).ask i request made).state =
        (w.ask i request made).state.limited limit :=
  w.ask_mapHeaps (·.limited limit) i request made hr

theorem free_form (i identity : Nat) (t : Target) :
    ∃ (α : Type) (kind : RefKind) (handle : Handle α), ∀ w : HeapWorld,
      w.objects[identity]? = some t →
        w.step (.free i identity) = w.ask i (fun h => (h.free kind handle).map .freed) [] := by
  cases t with
  | string s =>
    refine ⟨_, .string, ⟨identity, s⟩, fun w ht => ?_⟩
    simp only [step, ht]
    rfl
  | object o =>
    refine ⟨_, .object, ⟨identity, o⟩, fun w ht => ?_⟩
    simp only [step, ht]
    rfl

theorem unnoticed_free (w : HeapWorld) (limit i identity : Nat) :
    Unnoticed limit w (.free i identity) := by
  cases ht : w.objects[identity]? with
  | none =>
    have htl : (w.limited limit).objects[identity]? = none := ht
    constructor <;> simp only [step, ht, htl]
  | some t =>
    obtain ⟨α, kind, handle, hform⟩ := free_form i identity t
    obtain ⟨hanswer, hstate⟩ := w.ask_limited limit i
      (fun h => (h.free kind handle).map .freed) [] fun h _ => by
        obtain ⟨hanswer, hstate⟩ := h.free_limited limit kind handle
        exact ⟨congrArg (Except.map Answer.freed) hanswer, hstate⟩
    rw [← hform w ht, ← hform (w.limited limit) ht] at hanswer hstate
    exact ⟨hanswer, hstate⟩

theorem unnoticed_allocation {a : Action} {i : Nat} {t : Target}
    (ha : a.allocation? = some (i, t))
    (hr : ∀ h, w.heaps[i]? = some h →
      h.HasRoom t.bytes.length ∧ (h.limited limit).HasRoom t.bytes.length) :
    Unnoticed limit w a := by
  obtain ⟨α, target, form, _, _, hform⟩ := step_allocation ha
  obtain ⟨hanswer, hstate⟩ := w.ask_limited limit i
    (fun h => (h.allocate t.kind w.objects.length t.bytes.length target).map form) [t]
    fun h hi => by
      obtain ⟨hfree, hlimited⟩ := hr h hi
      obtain ⟨hanswer, hstate⟩ :=
        allocate_limited hfree hlimited t.kind w.objects.length target
      exact ⟨congrArg (Except.map form) hanswer, hstate⟩
  constructor
  · rw [hform w, ← hanswer]
    exact congrArg Outcome.answer (hform (w.limited limit))
  · rw [hform w, ← hstate]
    exact congrArg Outcome.state (hform (w.limited limit))

def Lone (w : HeapWorld) (h : Heap) : Prop := w.heaps = [h] ∧ h.limit = none

theorem allocated_of_lone {h : Heap} (hw : w.Lone h) : w.allocated = h.allocated := by
  rw [allocated, hw.1]
  rfl

theorem target?_eq_some {r : Request} {t : Target} :
    r.target? = some t ↔ r.action.allocation? = some (0, t) := by
  cases r <;> simp [Request.target?, Request.action, Action.allocation?]

theorem hasRoom_of_lone {h : Heap} (hw : w.Lone h) {bytes : Nat} :
    h.HasRoom bytes ↔ h.allocated + bytes ≤ Word.max := by
  constructor
  · exact fun hr => hr.word
  · intro hle
    refine ⟨hle, ?_⟩
    intro limit hl
    exact nomatch hl.symm.trans hw.2

theorem lone_free {h : Heap} (hw : w.Lone h) (identity : Nat) :
    (∃ g, (w.step (.free 0 identity)).state.Lone g) ∧
      (w.step (.free 0 identity)).state.allocated ≤ w.allocated := by
  rcases step_free w 0 identity with hs | ⟨g, hg, _, hs⟩
  · rw [hs]
    exact ⟨⟨h, hw⟩, Nat.le_refl _⟩
  · have hsame : g = h := by
      rw [hw.1] at hg
      exact (Option.some.inj hg).symm
    have hfreed : (w.step (.free 0 identity)).state.Lone (h.release identity) := by
      rw [hs, hsame]
      refine ⟨?_, hw.2⟩
      change w.heaps.set 0 (h.release identity) = [h.release identity]
      rw [hw.1]
      rfl
    refine ⟨⟨_, hfreed⟩, ?_⟩
    rw [allocated_of_lone hfreed, allocated_of_lone hw]
    exact Nat.sub_le _ _

theorem lone_allocation {h : Heap} (hw : w.Lone h) (hs : w.Sound) {a : Action} {t : Target}
    (ha : a.allocation? = some (0, t)) (hword : w.allocated + t.bytes.length ≤ Word.max) :
    (∃ g, (w.step a).state.Lone g) ∧ (∃ answer, (w.step a).answer = .ok answer) ∧
      (w.step a).state.allocated = w.allocated + t.bytes.length := by
  have hi : w.heaps[0]? = some h := by
    rw [hw.1]
    rfl
  rw [allocated_of_lone hw] at hword
  have hn : h.block? w.objects.length = none := (hs h (List.mem_of_getElem? hi)).fresh
  obtain ⟨⟨answer, hok, _⟩, hstate⟩ := step_of_room ha hi ((hasRoom_of_lone hw).2 hword) hn
  have hmade : (w.step a).state.Lone { h with
      allocated := h.allocated + t.bytes.length
      live := ⟨w.objects.length, t.bytes.length⟩ :: h.live } := by
    rw [hstate]
    refine ⟨?_, hw.2⟩
    change w.heaps.set 0 _ = _
    rw [hw.1]
    rfl
  refine ⟨⟨_, hmade⟩, ⟨answer, hok⟩, ?_⟩
  rw [allocated_of_lone hmade, allocated_of_lone hw]

theorem after_concat (w : HeapWorld) (script : List Request) (r : Request) :
    w.after (script ++ [r]) = ((w.after script).step r.action).state := after_append w script [r]

theorem FitsWord.of_prefix {before : List Request} (hword : FitsWord script)
    (hb : before <+: script) : FitsWord before :=
  fun earlier r t he ht => hword earlier r t (he.trans hb) ht

theorem sound_alone (limit : Option Nat) : (alone limit).Sound := by
  intro h hm
  cases List.mem_singleton.1 hm
  exact ⟨.nil, nofun, rfl, fun _ _ => Nat.zero_le _⟩

theorem sound_after (script : List Request) : ((alone none).after script).Sound :=
  sound_run (sound_alone none) _

structure Counts (script : List Request) (r : Request) : Prop where
  lone : ∃ h, ((alone none).after (script ++ [r])).Lone h
  other (ht : r.target? = none) : total (script ++ [r]) ≤ total script
  granted (t : Target) (ht : r.target? = some t) :
    (∃ answer, (((alone none).after script).step r.action).answer = .ok answer) ∧
      total (script ++ [r]) = total script + t.bytes.length

theorem counts_of_lone {h : Heap} {r : Request} (hw : ((alone none).after script).Lone h)
    (hword : FitsWord (script ++ [r])) : Counts script r := by
  have granted (t : Target) (ht : r.target? = some t) :=
    lone_allocation hw (sound_after script) (target?_eq_some.1 ht)
      (hword script r t (List.prefix_refl _) ht)
  have hlone : r.target? = none → (∃ g, ((alone none).after (script ++ [r])).Lone g) ∧
      total (script ++ [r]) ≤ total script := by
    intro ht
    unfold total
    rw [after_concat]
    cases r with
    | make t => exact ⟨⟨h, hw⟩, Nat.le_refl _⟩
    | free identity => exact lone_free hw identity
    | allocString | allocStringValue | allocObject => exact nomatch ht
  constructor
  · cases ht : r.target? with
    | none => exact (hlone ht).1
    | some t =>
      rw [after_concat]
      exact (granted t ht).1
  · exact fun ht => (hlone ht).2
  · intro t ht
    unfold total
    rw [after_concat]
    exact (granted t ht).2

theorem lone_after (hword : FitsWord script) : ∃ h, ((alone none).after script).Lone h := by
  induction script using List.reverseRecOn with
  | nil => exact ⟨_, rfl, rfl⟩
  | append_singleton script r ih =>
    obtain ⟨h, hw⟩ := ih (hword.of_prefix (List.prefix_append _ _))
    exact (counts_of_lone hw hword).lone

theorem counts {r : Request} (hword : FitsWord (script ++ [r])) : Counts script r := by
  obtain ⟨h, hw⟩ := lone_after (hword.of_prefix (List.prefix_append script [r]))
  exact counts_of_lone hw hword

theorem unnoticed_request {r : Request} (hword : FitsWord (script ++ [r]))
    (hl : total (script ++ [r]) ≤ limit) :
    Unnoticed limit ((alone none).after script) r.action := by
  obtain ⟨h, hw⟩ := lone_after (hword.of_prefix (List.prefix_append script [r]))
  cases ht : r.target? with
  | none =>
    cases r with
    | make t => exact ⟨rfl, rfl⟩
    | free identity => exact unnoticed_free _ limit 0 identity
    | allocString | allocStringValue | allocObject => exact nomatch ht
  | some t =>
    refine unnoticed_allocation (target?_eq_some.1 ht) ?_
    intro g hg
    rw [hw.1] at hg
    cases hg
    have htotal := ((counts hword).granted t ht).2
    have hfits := hword script r t (List.prefix_refl _) ht
    have hsum : total script = h.allocated := allocated_of_lone hw
    rw [htotal, hsum] at hl
    rw [hsum] at hfits
    refine ⟨(hasRoom_of_lone hw).2 hfits, hfits, ?_⟩
    intro most hm
    cases hm
    exact hl

theorem Unnoticed.seen {r : Request} (h : Unnoticed limit w r.action) :
    (w.limited limit).seen r = w.seen r := by
  unfold HeapWorld.seen
  rw [h.answer, h.state, allocated_limited, objectCount_limited]

theorem unnoticed_script (hword : FitsWord script)
    (hl : ∀ before, before <+: script → total before ≤ limit) :
    (alone (some limit)).observed script = (alone none).observed script ∧
      (alone (some limit)).after script = ((alone none).after script).limited limit := by
  induction script using List.reverseRecOn with
  | nil => exact ⟨rfl, rfl⟩
  | append_singleton script r ih =>
    have hb : script <+: script ++ [r] := List.prefix_append _ _
    obtain ⟨hobserved, hafter⟩ := ih (hword.of_prefix hb) fun before h => hl before (h.trans hb)
    have hr := unnoticed_request hword (hl _ (List.prefix_refl _))
    constructor
    · rw [observed_append, observed_append, hobserved, hafter]
      exact congrArg (_ ++ [·]) hr.seen
    · rw [after_concat, after_concat, hafter, hr.state]

theorem refused_beyond {r : Request} {t : Target} (hword : FitsWord script)
    (hl : ∀ before, before <+: script → total before ≤ limit) (ht : r.target? = some t)
    (hmore : limit < total script + t.bytes.length) :
    (((alone (some limit)).after script).step r.action).answer =
      .error (.outOfMemory t.bytes.length "bytes" (some limit)) := by
  obtain ⟨h, hw⟩ := lone_after hword
  have hsum : total script = h.allocated := allocated_of_lone hw
  have hi : (((alone none).after script).limited limit).heaps[0]? = some (h.limited limit) := by
    change (((alone none).after script).heaps.map (·.limited limit))[0]? = _
    rw [hw.1]
    rfl
  have hfull : ¬ (h.limited limit).HasRoom t.bytes.length := by
    intro hr
    have hle : h.allocated + t.bytes.length ≤ limit := hr.limit limit rfl
    omega
  rw [(unnoticed_script hword hl).2, step_of_no_room (target?_eq_some.1 ht) hi hfull]
  rfl

/-- The limit goes unnoticed during `before` and is noticed at `r`: an allocation that takes the
unlimited total beyond the limit for the first time. It is granted without the limit and refused
with it. -/
structure Noticed (limit : Nat) (before : List Request) (r : Request) (t : Target) : Prop where
  asked : r.target? = some t
  within : ∀ earlier, earlier <+: before → total earlier ≤ limit
  beyond : limit < total before + t.bytes.length
  same : (alone (some limit)).observed before = (alone none).observed before
  granted : ∃ answer, (((alone none).after before).step r.action).answer = .ok answer
  refused : (((alone (some limit)).after before).step r.action).answer =
    .error (.outOfMemory t.bytes.length "bytes" (some limit))

theorem exists_noticed (hword : FitsWord script) (hp : limit < peak script) :
    ∃ before r rest t, script = before ++ r :: rest ∧ Noticed limit before r t := by
  rcases exists_first_prefix (P := fun before => total before ≤ limit) (Nat.zero_le _) script with
    hall | ⟨before, r, rest, rfl, hall, hr⟩
  · exact absurd (peak_le_iff.2 hall) (Nat.not_le.2 hp)
  · have hnow : before ++ [r] <+: before ++ r :: rest := ⟨rest, by simp⟩
    have hbefore : FitsWord before := hword.of_prefix (List.prefix_append _ _)
    have hcounts : Counts before r := counts (hword.of_prefix hnow)
    cases ht : r.target? with
    | none =>
      have hle : total before ≤ limit := hall before (List.prefix_refl _)
      exact absurd (Nat.le_trans (hcounts.other ht) hle) hr
    | some t =>
      obtain ⟨hgranted, htotal⟩ := hcounts.granted t ht
      rw [htotal, Nat.not_le] at hr
      exact ⟨before, r, rest, t, rfl, ht, hall, hr, (unnoticed_script hbefore hall).1, hgranted,
        refused_beyond hbefore hall ht hr⟩

theorem Noticed.observed_ne {before : List Request} {r : Request} {t : Target}
    (h : Noticed limit before r t) (rest : List Request) :
    (alone (some limit)).observed (before ++ r :: rest) ≠
      (alone none).observed (before ++ r :: rest) := by
  intro hsame
  rw [observed_append, observed_append, h.same] at hsame
  have hseen := (List.cons.inj (List.append_cancel_left hsame)).1
  obtain ⟨answer, hgranted⟩ := h.granted
  have hanswer := congrArg Seen.answer hseen
  exact nomatch h.refused.symm.trans (hanswer.trans hgranted)

/-- On a heap with a limit a script shows what it shows on one without, step by step, exactly if the
limit is no less than the peak. Below the peak, the first step that shows a difference is the first
allocation that takes the unlimited total beyond the limit, and it is refused. -/
theorem limit_unnoticed_iff {script : List Request} (hword : FitsWord script) (limit : Nat) :
    ((alone (some limit)).observed script = (alone none).observed script ↔ peak script ≤ limit) ∧
    (limit < peak script →
      ∃ before r rest t, script = before ++ r :: rest ∧ Noticed limit before r t) := by
  refine ⟨⟨?_, ?_⟩, exists_noticed hword⟩
  · intro hsame
    by_contra hp
    obtain ⟨before, r, rest, t, rfl, hnoticed⟩ := exists_noticed hword (Nat.not_le.1 hp)
    exact hnoticed.observed_ne rest hsame
  · intro hp
    exact (unnoticed_script hword (peak_le_iff.1 hp)).1

theorem limit_unnoticed_iff_three :
    let script : List Request := [.allocString (.ofBytes [104, 105]),
      .make (.object (.string (.ofBytes [33]))), .free 0, .free 1,
      .allocStringValue (.ofBytes [97, 98, 99])]
    FitsWord script ∧ peak script = 3 ∧ 2 < peak script ∧
      ((alone (some 3)).observed script = (alone none).observed script ↔ peak script ≤ 3) ∧
      ∃ before r rest t, script = before ++ r :: rest ∧ Noticed 2 before r t := by
  intro script
  have hpeak : peak script = 3 := by decide
  have hbytes : ∀ r ∈ script, ((r.target?.elim [] Target.bytes).length ≤ 3) := by decide
  have hword : FitsWord script := by
    intro before r t hb ht
    have htotal : total before ≤ 3 :=
      peak_le_iff.1 (Nat.le_of_eq hpeak) before ((List.prefix_append before [r]).trans hb)
    have hlength := hbytes r (hb.subset (List.mem_append_right before (List.mem_singleton_self r)))
    rw [ht] at hlength
    exact Nat.le_trans (Nat.add_le_add htotal hlength) (by decide)
  exact ⟨hword, hpeak, by rw [hpeak]; decide, (limit_unnoticed_iff hword 3).1,
    (limit_unnoticed_iff hword 2).2 (by rw [hpeak]; decide)⟩

end HeapWorld

end ValueStorage
