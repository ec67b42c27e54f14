import ValueStorage.Proofs.HeapAccounts
import ValueStorage.Proofs.Lineage

/-! The past of a heap. It is made of what the heap was asked and what it answered, and, if it is a
copy, of the past of its original up to then. Whether an object can be freed on a heap is decided by
that past alone: the object was made there, and it was not freed there since. -/

namespace ValueStorage

namespace HeapWorld

structure Exchange where
  action : Action
  answer : Except Fault Answer

def Exchange.made? (e : Exchange) : Option Nat := e.answer.toOption.bind Answer.made?

def Exchange.freed? : Exchange → Option Nat
  | ⟨.free _ identity, .ok (.freed true)⟩ => some identity
  | _ => none

def remembered (pasts : List (List Exchange)) (a : Action) (answer : Except Fault Answer) :
    List (List Exchange) :=
  match a with
  | .new _ _ => pasts ++ [[]]
  | .copy i => pasts ++ pasts[i]?.toList
  | .make _ => pasts
  | .allocString i _ | .allocStringValue i _ | .allocObject i _ | .free i _ =>
    pasts.modify i (· ++ [⟨a, answer⟩])

def pasts : HeapWorld → List (List Exchange) → List Action → List (List Exchange)
  | _, known, [] => known
  | w, known, a :: as => (w.step a).state.pasts (remembered known a (w.step a).answer) as

/-- The object was made at some point of the past, and it was not freed from then on. -/
def LiveAfter (past : List Exchange) (identity : Nat) : Prop :=
  ∃ before e after, past = before ++ e :: after ∧ e.made? = some identity ∧
    ∀ f ∈ after, f.freed? ≠ some identity

def given (w : HeapWorld) (a : Action) : Option Value :=
  match a with
  | .make t => some (t.value w.objects.length)
  | _ => (w.step a).answer.toOption.bind Answer.value?

/-- All values that a run gives out. Whoever has one of them can go on reading it. -/
def values : HeapWorld → List Action → List Value
  | _, [] => []
  | w, a :: as => (w.given a).toList ++ (w.step a).state.values as

variable {past : List Exchange} {identity : Nat}

theorem not_liveAfter_nil : ¬ LiveAfter [] identity := by
  rintro ⟨before, e, after, hp, _⟩
  cases before <;> exact nomatch hp

theorem liveAfter_concat {e : Exchange} : LiveAfter (past ++ [e]) identity ↔
    e.made? = some identity ∨ LiveAfter past identity ∧ e.freed? ≠ some identity := by
  constructor
  · rintro ⟨before, d, after, hp, hmade, hfreed⟩
    rcases List.eq_nil_or_concat after with rfl | ⟨rest, f, rfl⟩
    -- it is the last exchange that made the object
    · obtain ⟨_, hd⟩ := List.append_inj' hp rfl
      cases hd
      exact .inl hmade
    · rw [List.concat_eq_append, ← List.cons_append, ← List.append_assoc] at hp
      obtain ⟨rfl, hf⟩ := List.append_inj' hp rfl
      cases hf
      rw [List.concat_eq_append] at hfreed
      refine .inr ⟨⟨before, d, rest, rfl, hmade, ?_⟩, ?_⟩
      · intro f hf
        exact hfreed f (List.mem_append_left _ hf)
      · exact hfreed e (List.mem_append_right _ (List.mem_singleton_self e))
  · rintro (hmade | ⟨⟨before, d, after, rfl, hmade, hfreed⟩, he⟩)
    · exact ⟨past, e, [], rfl, hmade, nofun⟩
    · refine ⟨before, d, after ++ [e], ?_, hmade, ?_⟩
      · rw [List.append_assoc, List.cons_append]
      · intro f hf
        rcases List.mem_append.1 hf with hf | hf
        · exact hfreed f hf
        · cases List.mem_singleton.1 hf
          exact he

theorem freed_concat (past : List Exchange) (e : Exchange) :
    (past ++ [e]).filterMap Exchange.freed? =
      past.filterMap Exchange.freed? ++ e.freed?.toList := by
  rw [List.filterMap_append]
  cases hf : e.freed? with
  | none => rw [List.filterMap_cons_none hf, List.filterMap_nil, Option.toList_none]
  | some identity => rw [List.filterMap_cons_some hf, List.filterMap_nil, Option.toList_some]

end HeapWorld

namespace Heap

open HeapWorld

structure Follows (supply : Nat) (h : Heap) (past : List Exchange) : Prop where
  live_iff (identity : Nat) : identity ∈ h.identities ↔ LiveAfter past identity
  freed_once : (past.filterMap Exchange.freed?).Nodup
  freed_lt (identity : Nat) (hf : identity ∈ past.filterMap Exchange.freed?) : identity < supply
  freed_gone (identity : Nat) (hf : identity ∈ past.filterMap Exchange.freed?) :
    identity ∉ h.identities

variable {supply : Nat} {h : Heap} {past : List Exchange}

theorem follows_new (limit : Option Nat) (trace : Bool) :
    Follows supply { limit, trace } [] := by
  refine ⟨fun identity => ?_, .nil, nofun, nofun⟩
  exact ⟨nofun, fun hl => absurd hl not_liveAfter_nil⟩

theorem Follows.more (hp : h.Follows supply past) (made : Nat) : h.Follows (supply + made) past :=
  ⟨hp.live_iff, hp.freed_once,
    fun identity hf => Nat.lt_add_right made (hp.freed_lt identity hf), hp.freed_gone⟩

theorem Follows.of_nothing (hp : h.Follows supply past) {e : Exchange} (hmade : e.made? = none)
    (hfreed : e.freed? = none) : h.Follows supply (past ++ [e]) := by
  have same : (past ++ [e]).filterMap Exchange.freed? = past.filterMap Exchange.freed? := by
    rw [freed_concat, hfreed, Option.toList_none, List.append_nil]
  refine ⟨fun identity => ?_, same ▸ hp.freed_once, same ▸ hp.freed_lt, same ▸ hp.freed_gone⟩
  rw [liveAfter_concat, hmade, hfreed, hp.live_iff]
  simp

theorem Follows.of_made (hp : h.Follows supply past) {e : Exchange} (hmade : e.made? = some supply)
    (hfreed : e.freed? = none) (allocated bytes : Nat) :
    Follows (supply + 1) { h with allocated, live := ⟨supply, bytes⟩ :: h.live } (past ++ [e]) := by
  have same : (past ++ [e]).filterMap Exchange.freed? = past.filterMap Exchange.freed? := by
    rw [freed_concat, hfreed, Option.toList_none, List.append_nil]
  have live : ({ h with allocated, live := ⟨supply, bytes⟩ :: h.live } : Heap).identities =
    supply :: h.identities := rfl
  refine ⟨fun identity => ?_, same ▸ hp.freed_once, fun identity hf => ?_, fun identity hf => ?_⟩
  · rw [live, List.mem_cons, liveAfter_concat, hmade, hfreed, ← hp.live_iff, Option.some.injEq,
      eq_comm]
    simp
  · rw [same] at hf
    exact Nat.lt_succ_of_lt (hp.freed_lt identity hf)
  · rw [same] at hf
    rw [live, List.mem_cons, not_or]
    exact ⟨Nat.ne_of_lt (hp.freed_lt identity hf), hp.freed_gone identity hf⟩

theorem Follows.of_freed (hp : h.Follows supply past) {e : Exchange} {identity : Nat}
    (hmade : e.made? = none) (hfreed : e.freed? = some identity) (hlt : identity < supply)
    (hl : identity ∈ h.identities) : (h.release identity).Follows supply (past ++ [e]) := by
  have more : (past ++ [e]).filterMap Exchange.freed? =
      past.filterMap Exchange.freed? ++ [identity] := by
    rw [freed_concat, hfreed, Option.toList_some]
  have live (other : Nat) : other ∈ (h.release identity).identities ↔
      other ∈ h.identities ∧ other ≠ identity := by
    rw [identities_release, List.mem_filter]
    simp
  refine ⟨fun other => ?_, ?_, fun other hf => ?_, fun other hf => ?_⟩
  · rw [live, liveAfter_concat, hmade, hfreed, ← hp.live_iff]
    simp [eq_comm]
  · rw [more, ← List.concat_eq_append, List.nodup_concat]
    exact ⟨fun hf => hp.freed_gone identity hf hl, hp.freed_once⟩
  · rw [more, List.mem_append, List.mem_singleton] at hf
    rcases hf with hf | rfl
    · exact hp.freed_lt other hf
    · exact hlt
  · rw [more, List.mem_append, List.mem_singleton] at hf
    rw [live]
    rintro ⟨hother, hne⟩
    rcases hf with hf | rfl
    · exact hp.freed_gone other hf hother
    · exact hne rfl

end Heap

namespace HeapWorld

open Heap

open List (Forall₂)

variable {w : HeapWorld} {known : List (List Exchange)} {i identity : Nat} {h : Heap}

theorem remembered_allocation {a : Action} {t : Target} (ha : a.allocation? = some (i, t))
    (answer : Except Fault Answer) :
    remembered known a answer = known.modify i (· ++ [⟨a, answer⟩]) := by
  cases a with
  | allocString j s | allocStringValue j s | allocObject j o =>
    cases ha
    rfl
  | _ => exact nomatch ha

theorem freed?_allocation {a : Action} {t : Target} (ha : a.allocation? = some (i, t))
    (answer : Except Fault Answer) : Exchange.freed? ⟨a, answer⟩ = none := by
  cases a with
  | allocString j s | allocStringValue j s | allocObject j o => rfl
  | _ => exact nomatch ha

def Follows (w : HeapWorld) (known : List (List Exchange)) : Prop :=
  Forall₂ (Heap.Follows w.objects.length) w.heaps known

theorem follows_allocation (hw : w.Sound) (hk : w.Follows known) {a : Action} {t : Target}
    (ha : a.allocation? = some (i, t)) :
    (w.step a).state.Follows (remembered known a (w.step a).answer) := by
  rw [remembered_allocation ha]
  cases hi : w.heaps[i]? with
  | none =>
    rw [step_of_no_heap ha hi]
    refine Lineage.forall₂_modify hk fun g past hg => ?_
    exact nomatch hi.symm.trans hg
  | some h =>
    by_cases hr : h.HasRoom t.bytes.length
    · have hn : h.block? w.objects.length = none := (hw h (List.mem_of_getElem? hi)).fresh
      obtain ⟨⟨answer, hok, hmade⟩, hs⟩ := step_of_room ha hi hr hn
      have he : Exchange.made? ⟨a, .ok answer⟩ = some w.objects.length := hmade
      rw [hs, hok]
      unfold Follows
      rw [List.length_append]
      refine Lineage.forall₂_set_modify hk (fun _ _ hp => hp.more 1) hi fun past hp => ?_
      exact hp.of_made he (freed?_allocation ha _) _ _
    · rw [step_of_no_room ha hi hr]
      refine Lineage.forall₂_modify hk fun g past _ hp => ?_
      exact hp.of_nothing rfl (freed?_allocation ha _)

theorem follows_free (hw : w.Sound) (hk : w.Follows known) (i identity : Nat) :
    (w.step (.free i identity)).state.Follows
      (remembered known (.free i identity) (w.step (.free i identity)).answer) := by
  rcases step_free w i identity with hs | ⟨h, hi, hanswer, hs⟩
  · rw [hs]
    exact Lineage.forall₂_modify hk fun g past _ hp => hp.of_nothing rfl rfl
  · rw [hs, hanswer]
    have hb := hw h (List.mem_of_getElem? hi)
    cases hf : h.block? identity with
    | none =>
      rw [release_of_not_live hf, Lineage.set_self hi]
      exact Lineage.forall₂_modify hk fun g past _ hp => hp.of_nothing rfl rfl
    | some b =>
      have hl : identity ∈ h.identities := block?_isSome.1 (Option.isSome_of_eq_some hf)
      have hlt : identity < w.objects.length := by
        obtain ⟨hm, rfl⟩ := mem_of_block? hf
        exact hb.identity_lt hm
      refine Lineage.forall₂_set_modify hk (fun _ _ hp => hp) hi fun past hp => ?_
      exact hp.of_freed rfl rfl hlt hl

theorem follows_step (hw : w.Sound) (hk : w.Follows known) (a : Action) :
    (w.step a).state.Follows (remembered known a (w.step a).answer) := by
  cases a with
  | new limit trace => exact Lineage.forall₂_new hk (Heap.follows_new limit trace)
  | copy i => exact Lineage.forall₂_copy hk i
  | make t =>
    simp only [step, remembered, Follows, List.length_append]
    exact hk.imp fun _ _ hp => hp.more 1
  | allocString i s | allocStringValue i s | allocObject i o => exact follows_allocation hw hk rfl
  | free i identity => exact follows_free hw hk i identity

theorem follows_run (hw : w.Sound) (hk : w.Follows known) (as : List Action) :
    (w.run as).Follows (w.pasts known as) := by
  induction as generalizing w known with
  | nil => exact hk
  | cons a as ih => exact ih (keeps hw a).sound (follows_step hw hk a)

theorem value_inj {t u : Target} {n identity : Nat} (h : t.value n = u.value identity) :
    n = identity ∧ t = u := by
  cases t <;> cases u <;> cases h <;> exact ⟨rfl, rfl⟩

theorem objects_prefix_ask (w : HeapWorld) (i : Nat) (request : Heap → Outcome Heap Answer)
    (made : List Target) : w.objects <+: (w.ask i request made).state.objects := by
  unfold ask
  split
  · exact List.prefix_refl _
  · dsimp only
    split
    · exact List.prefix_append _ _
    · exact List.prefix_refl _

theorem objects_prefix_step (w : HeapWorld) (a : Action) :
    w.objects <+: (w.step a).state.objects := by
  cases a with
  | new limit trace => exact List.prefix_refl _
  | copy i => exact List.prefix_refl _
  | make t => exact List.prefix_append _ _
  | allocString i s | allocStringValue i s | allocObject i o => exact objects_prefix_ask w i _ _
  | free i identity =>
    rcases step_free w i identity with hs | ⟨h, _, _, hs⟩
    · rw [hs]
    · rw [hs]

theorem object_of_run {t : Target} (ht : w.objects[identity]? = some t) (as : List Action) :
    (w.run as).objects[identity]? = some t := by
  induction as generalizing w with
  | nil => exact ht
  | cons a as ih =>
    obtain ⟨more, hmore⟩ := objects_prefix_step w a
    refine ih ?_
    rw [← hmore, List.getElem?_append_left (List.getElem?_eq_some_iff.1 ht).1]
    exact ht

theorem object_of_allocation {a : Action} {t u : Target} (ha : a.allocation? = some (i, t))
    (hv : (w.step a).answer.toOption.bind Answer.value? = some (u.value identity)) :
    (w.step a).state.objects[identity]? = some u := by
  cases hok : (w.step a).answer with
  | error fault =>
    rw [hok] at hv
    exact nomatch hv
  | ok answer =>
    rw [hok] at hv
    obtain ⟨hvalue, hobjects⟩ := value_of_allocation ha hok hv
    obtain ⟨rfl, rfl⟩ := value_inj hvalue
    rw [hobjects]
    exact List.getElem?_concat_length

theorem object_of_given {a : Action} {u : Target} (hv : w.given a = some (u.value identity)) :
    (w.step a).state.objects[identity]? = some u := by
  cases a with
  | new limit trace => exact nomatch hv
  | copy i => exact nomatch hv
  | make t =>
    obtain ⟨rfl, rfl⟩ := value_inj (Option.some.inj hv)
    exact List.getElem?_concat_length
  | allocString i s | allocStringValue i s | allocObject i o => exact object_of_allocation rfl hv
  | free i n =>
    unfold given at hv
    rcases step_free w i n with hs | ⟨h, _, hanswer, _⟩
    · rw [hs] at hv
      exact nomatch hv
    · rw [hanswer] at hv
      exact nomatch hv

theorem object_of_value {u : Target} {as : List Action} (hu : u.value identity ∈ w.values as) :
    (w.run as).objects[identity]? = some u := by
  induction as generalizing w with
  | nil => exact nomatch hu
  | cons a as ih =>
    rcases List.mem_append.1 hu with hgiven | hrest
    · exact object_of_run (object_of_given (Option.mem_toList.1 hgiven)) as
    · exact ih hrest

theorem release_credits {objects : List Target} {t : Target} (hb : h.Balanced objects)
    (ht : objects[identity]? = some t) (hl : identity ∈ h.identities) :
    (h.release identity).allocated + t.bytes.length = h.allocated ∧
      (h.release identity).objectCount + 1 = h.objectCount := by
  obtain ⟨u, hu, hblock, hle⟩ := hb.account hl
  cases ht.symm.trans hu
  constructor
  · have ha : (h.release identity).allocated = h.allocated - t.bytes.length := by
      simp [release, hblock]
    rw [ha, Nat.sub_add_cancel hle]
  · have count (g : Heap) : g.objectCount = g.identities.length := (List.length_map _).symm
    rw [count, count, identities_release, ← hb.distinct.erase_eq_filter,
      List.length_erase_add_one hl]

/-- On every heap of a run, freeing an object is answered with whether the past of that heap has made it
and not freed it since; along that past no object was freed twice. If it is so, the bytes of the object
and one object are taken off the account; if not, nothing changes. Neither changes another heap, nor what
is read through any value of the object. -/
theorem freed_exactly_if_live (as : List Action) {i identity : Nat} {h : Heap} {t : Target}
    (hi : (run {} as).heaps[i]? = some h) (ht : (run {} as).objects[identity]? = some t) :
    let w := run {} as
    let o := w.step (.free i identity)
    ∃ past : List Exchange, (pasts {} [] as)[i]? = some past ∧
      (past.filterMap Exchange.freed?).Nodup ∧
      ∃ live : Bool, o.answer = .ok (.freed live) ∧ (live = true ↔ LiveAfter past identity) ∧
        (live = true → ∃ g : Heap, o.state.heaps[i]? = some g ∧
          g.allocated + t.bytes.length = h.allocated ∧ g.objectCount + 1 = h.objectCount) ∧
        (live = false → o.state = w) ∧
        (∀ j, j ≠ i → o.state.heaps[j]? = w.heaps[j]?) ∧
        o.state.objects[identity]? = some t ∧
        ∀ u : Target, u.value identity ∈ values {} as → u = t := by
  intro w o
  have hw : w.Sound := sound_run sound_empty as
  have hb : h.Balanced w.objects := hw h (List.mem_of_getElem? hi)
  have hk : w.Follows (pasts {} [] as) := follows_run sound_empty .nil as
  obtain ⟨past, hpast, hf⟩ := Lineage.past_of_thing hk hi
  obtain ⟨hanswer, hs⟩ := step_free_of_object ht hi
  have hlt : i < w.heaps.length := (List.getElem?_eq_some_iff.1 hi).1
  refine ⟨past, hpast, hf.freed_once, _, hanswer, ?_, ?_, ?_, ?_, ?_, ?_⟩
  · rw [block?_isSome]
    exact hf.live_iff identity
  · intro hl
    refine ⟨h.release identity, ?_, release_credits hb ht (block?_isSome.1 hl)⟩
    rw [hs]
    exact List.getElem?_set_self hlt
  · intro hl
    have hn : h.block? identity = none :=
      Option.isNone_iff_eq_none.1 (Option.isSome_eq_false_iff.1 hl)
    rw [hs, release_of_not_live hn, Lineage.set_self hi]
  · intro j hj
    rw [hs]
    exact List.getElem?_set_ne (Ne.symm hj)
  · rw [hs]
    exact ht
  · intro u hu
    exact Option.some.inj ((object_of_value hu).symm.trans ht)

theorem freed_exactly_if_live_copy :
    let as : List Action := [.new (some 4) false, .allocStringValue 0 (.ofBytes [104, 105]),
      .make (.object (.string (.ofBytes [33]))), .copy 0, .free 0 0, .free 1 1]
    let w := run {} as
    let o := w.step (.free 1 0)
    ∃ (h : Heap) (t : Target), w.heaps[1]? = some h ∧ w.objects[0]? = some t ∧
      ∃ past : List Exchange, (pasts {} [] as)[1]? = some past ∧
        (past.filterMap Exchange.freed?).Nodup ∧
        ∃ live : Bool, live = true ∧ o.answer = .ok (.freed live) ∧
          (live = true ↔ LiveAfter past 0) ∧
          (live = true → ∃ g : Heap, o.state.heaps[1]? = some g ∧
            g.allocated + t.bytes.length = h.allocated ∧ g.objectCount + 1 = h.objectCount) ∧
          (live = false → o.state = w) ∧
          (∀ j, j ≠ 1 → o.state.heaps[j]? = w.heaps[j]?) ∧
          o.state.objects[0]? = some t ∧
          ∀ u : Target, u.value 0 ∈ values {} as → u = t := by
  refine ⟨_, _, rfl, rfl, ?_⟩
  obtain ⟨past, hpast, honce, live, hanswer, h⟩ := @freed_exactly_if_live
    [.new (some 4) false, .allocStringValue 0 (.ofBytes [104, 105]),
      .make (.object (.string (.ofBytes [33]))), .copy 0, .free 0 0, .free 1 1] 1 0 _ _ rfl rfl
  refine ⟨past, hpast, honce, live, ?_, hanswer, h⟩
  cases hanswer
  rfl

end HeapWorld

end ValueStorage
