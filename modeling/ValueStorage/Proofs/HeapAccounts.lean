import Mathlib
import ValueStorage.Proofs.HeapWorld

/-! The accounts of heaps. A heap keeps a total beside the accounts of its live objects and changes
the two apart from each other. They agree all the same, whatever was allocated, copied and freed
before, twice or on the wrong heap. -/

namespace ValueStorage

namespace Heap

def identities (h : Heap) : List Nat := h.live.map Block.identity

/-- No object has two accounts, each is over the bytes that the object has, and the total is what the
accounts add up to. -/
structure Balanced (objects : List Target) (h : Heap) : Prop where
  distinct : h.identities.Nodup
  accounted (b : Block) (hb : b ∈ h.live) :
    ∃ t, objects[b.identity]? = some t ∧ b.bytes = t.bytes.length
  total : h.allocated = (h.live.map Block.bytes).sum
  within (limit : Nat) (hl : h.limit = some limit) : h.allocated ≤ limit

variable {objects : List Target} {h : Heap}

theorem mem_of_block? {identity : Nat} {b : Block} (hb : h.block? identity = some b) :
    b ∈ h.live ∧ b.identity = identity :=
  ⟨List.mem_of_find?_eq_some hb, by simpa using List.find?_some hb⟩

theorem block?_isSome {identity : Nat} : (h.block? identity).isSome ↔ identity ∈ h.identities := by
  simp only [block?, List.find?_isSome, beq_iff_eq, identities, List.mem_map]

theorem identities_release (h : Heap) (identity : Nat) :
    (h.release identity).identities = h.identities.filter (· != identity) := by
  simp only [identities, release, List.filter_map]
  rfl

theorem sum_filter_identity {live : List Block} (hn : (live.map Block.identity).Nodup) {b : Block}
    (hb : b ∈ live) :
    ((live.filter (·.identity != b.identity)).map Block.bytes).sum + b.bytes =
      (live.map Block.bytes).sum := by
  induction live with
  | nil => exact nomatch hb
  | cons c rest ih =>
    rw [List.map_cons, List.nodup_cons] at hn
    obtain ⟨hc, hrest⟩ := hn
    rcases List.mem_cons.1 hb with rfl | hb
    -- no other account has this identity, so the rest stays as it is
    · have apart : ∀ d ∈ rest, (d.identity != b.identity) = true := by
        intro d hd
        have hne : d.identity ≠ b.identity := fun he => hc (he ▸ List.mem_map_of_mem hd)
        simpa using hne
      rw [List.filter_cons_of_neg (by simp), List.filter_eq_self.2 apart, List.map_cons,
        List.sum_cons, Nat.add_comm]
    · have hne : c.identity ≠ b.identity := fun he => hc (he ▸ List.mem_map_of_mem hb)
      rw [List.filter_cons_of_pos (by simpa using hne), List.map_cons, List.sum_cons, Nat.add_assoc,
        ih hrest hb, List.map_cons, List.sum_cons]

namespace Balanced

theorem identity_lt (hb : h.Balanced objects) {b : Block} (hm : b ∈ h.live) :
    b.identity < objects.length := by
  obtain ⟨t, ht, _⟩ := hb.accounted b hm
  exact (List.getElem?_eq_some_iff.1 ht).1

theorem fresh (hb : h.Balanced objects) : h.block? objects.length = none := by
  cases hf : h.block? objects.length with
  | none => rfl
  | some b =>
    obtain ⟨hm, hi⟩ := mem_of_block? hf
    exact absurd (hb.identity_lt hm) (hi ▸ Nat.lt_irrefl _)

theorem more (hb : h.Balanced objects) (made : List Target) : h.Balanced (objects ++ made) := by
  refine ⟨hb.distinct, fun b hm => ?_, hb.total, hb.within⟩
  obtain ⟨t, ht, hl⟩ := hb.accounted b hm
  refine ⟨t, ?_, hl⟩
  rw [List.getElem?_append_left (List.getElem?_eq_some_iff.1 ht).1]
  exact ht

theorem charge (hb : h.Balanced objects) {t : Target} (hr : h.HasRoom t.bytes.length) :
    Balanced (objects ++ [t]) { h with
      allocated := h.allocated + t.bytes.length,
      live := ⟨objects.length, t.bytes.length⟩ :: h.live } := by
  refine ⟨?_, ?_, ?_, hr.limit⟩
  · refine List.nodup_cons.2 ⟨fun hm => ?_, hb.distinct⟩
    obtain ⟨b, hl, hi⟩ := List.mem_map.1 hm
    exact absurd (hb.identity_lt hl) (hi ▸ Nat.lt_irrefl _)
  · intro b hm
    rcases List.mem_cons.1 hm with rfl | hm
    · exact ⟨t, List.getElem?_concat_length, rfl⟩
    · exact (hb.more [t]).accounted b hm
  · rw [List.map_cons, List.sum_cons, ← hb.total, Nat.add_comm]

theorem bytes_le (hb : h.Balanced objects) {identity : Nat} {b : Block}
    (hf : h.block? identity = some b) : b.bytes ≤ h.allocated := by
  have hs := sum_filter_identity hb.distinct (mem_of_block? hf).1
  rw [← hb.total] at hs
  exact Nat.le_of_add_left_le (Nat.le_of_eq hs)

theorem account (hb : h.Balanced objects) {identity : Nat} (hl : identity ∈ h.identities) :
    ∃ t, objects[identity]? = some t ∧ h.block? identity = some ⟨identity, t.bytes.length⟩ ∧
      t.bytes.length ≤ h.allocated := by
  obtain ⟨b, hf⟩ := Option.isSome_iff_exists.1 (block?_isSome.2 hl)
  obtain ⟨hm, rfl⟩ := mem_of_block? hf
  obtain ⟨t, ht, hbytes⟩ := hb.accounted b hm
  refine ⟨t, ht, ?_, ?_⟩
  · rw [hf, ← hbytes]
  · rw [← hbytes]
    exact hb.bytes_le hf

theorem release (hb : h.Balanced objects) (identity : Nat) :
    (h.release identity).Balanced objects := by
  cases hf : h.block? identity with
  | none =>
    rw [release_of_not_live hf]
    exact hb
  | some b =>
    obtain ⟨hm, rfl⟩ := mem_of_block? hf
    have hs := sum_filter_identity hb.distinct hm
    have ha : (h.release b.identity).allocated = h.allocated - b.bytes := by
      simp [Heap.release, hf]
    refine ⟨hb.distinct.sublist (List.filter_sublist.map _), fun c hc => ?_, ?_, fun limit hl => ?_⟩
    · exact hb.accounted c (List.mem_filter.1 hc).1
    · rw [ha, hb.total, ← hs, Nat.add_sub_cancel]
      rfl
    · rw [ha]
      exact Nat.le_trans (Nat.sub_le _ _) (hb.within limit hl)

end Balanced

end Heap

namespace HeapWorld

open Heap

variable {w : HeapWorld} {i : Nat} {h : Heap}

def byteLength (w : HeapWorld) (identity : Nat) : Nat :=
  (w.objects[identity]?.elim [] Target.bytes).length

def Sound (w : HeapWorld) : Prop := ∀ h ∈ w.heaps, h.Balanced w.objects

theorem allocated_eq (hb : h.Balanced w.objects) :
    h.allocated = (h.identities.map w.byteLength).sum := by
  have bytes : h.live.map Block.bytes = h.identities.map w.byteLength := by
    rw [identities, List.map_map]
    refine List.map_congr_left fun b hm => ?_
    obtain ⟨t, ht, hl⟩ := hb.accounted b hm
    simp only [Function.comp_apply, byteLength, ht]
    exact hl
  rw [hb.total, bytes]

theorem Sound.set (hw : w.Sound) (hb : h.Balanced w.objects) :
    Sound { w with heaps := w.heaps.set i h } := by
  intro g hg
  rcases List.mem_or_eq_of_mem_set hg with hg | rfl
  · exact hw g hg
  · exact hb

theorem Sound.more (hw : w.Sound) (made : List Target) :
    Sound { w with objects := w.objects ++ made } := fun g hg => (hw g hg).more made

def identities (w : HeapWorld) : List (List Nat) := w.heaps.map Heap.identities

theorem identities_set {g : Heap} (hi : w.heaps[i]? = some h) {change : List Nat → List Nat}
    (hg : g.identities = change h.identities) :
    (w.heaps.set i g).map Heap.identities = w.identities.modify i change := by
  rw [List.map_set, hg, List.modify_eq_set, identities, List.getElem?_map, hi]
  rfl

structure Keeps (w : HeapWorld) (a : Action) : Prop where
  sound : (w.step a).state.Sound
  live : (w.step a).state.identities = recorded w.identities a (w.step a).answer

theorem keeps_allocation (hw : w.Sound) {a : Action} {t : Target}
    (ha : a.allocation? = some (i, t)) : w.Keeps a := by
  cases hi : w.heaps[i]? with
  | none =>
    have hs := step_of_no_heap ha hi
    refine ⟨hs ▸ hw, ?_⟩
    have absent : w.identities.length ≤ i := by
      simpa [identities] using hi
    rw [hs, recorded_allocation ha, List.modify_eq_self absent]
  | some h =>
    have hb := hw h (List.mem_of_getElem? hi)
    by_cases hr : h.HasRoom t.bytes.length
    -- the identity is new, so the allocation ends no older account
    · have hn : h.block? w.objects.length = none := hb.fresh
      obtain ⟨⟨answer, hok, hmade⟩, hs⟩ := step_of_room ha hi hr hn
      refine ⟨?_, ?_⟩
      · rw [hs]
        exact Sound.set (hw.more [t]) (hb.charge hr)
      · rw [hs, hok, recorded_allocation ha, hmade]
        exact identities_set hi rfl
    · have hs := step_of_no_room ha hi hr
      refine ⟨hs ▸ hw, ?_⟩
      rw [hs]
      exact (recorded_refused ha _ _).symm

theorem keeps_free (hw : w.Sound) (i identity : Nat) : w.Keeps (.free i identity) := by
  rcases step_free w i identity with hs | ⟨h, hi, hanswer, hs⟩
  · exact ⟨hs ▸ hw, by rw [hs]; rfl⟩
  · refine ⟨?_, ?_⟩
    · rw [hs]
      exact hw.set ((hw h (List.mem_of_getElem? hi)).release identity)
    · rw [hs, hanswer]
      cases hf : h.block? identity with
      | none =>
        obtain ⟨hlt, rfl⟩ := List.getElem?_eq_some_iff.1 hi
        rw [release_of_not_live hf, List.set_getElem_self]
        rfl
      | some b => exact identities_set hi (identities_release h identity)

theorem keeps (hw : w.Sound) (a : Action) : w.Keeps a := by
  cases a with
  | new limit trace =>
    refine ⟨fun g hg => ?_, List.map_append⟩
    rcases List.mem_append.1 hg with hg | hg
    · exact hw g hg
    · cases List.mem_singleton.1 hg
      exact ⟨.nil, nofun, rfl, fun limit _ => Nat.zero_le limit⟩
  | copy i =>
    refine ⟨fun g hg => ?_, ?_⟩
    · rcases List.mem_append.1 hg with hg | hg
      · exact hw g hg
      · exact hw g (List.mem_of_getElem? (Option.mem_toList.1 hg))
    · simp only [step, identities, recorded, List.map_append, List.getElem?_map]
      cases w.heaps[i]? <;> rfl
  | make t => exact ⟨hw.more [t], rfl⟩
  | allocString i s | allocStringValue i s | allocObject i o => exact keeps_allocation hw rfl
  | free i identity => exact keeps_free hw i identity

theorem sound_run (hw : w.Sound) (as : List Action) : (w.run as).Sound := by
  induction as generalizing w with
  | nil => exact hw
  | cons a as ih => exact ih (keeps hw a).sound

theorem identities_run (hw : w.Sound) (as : List Action) :
    (w.run as).identities = w.record w.identities as := by
  induction as generalizing w with
  | nil => rfl
  | cons a as ih =>
    rw [run, ih (keeps hw a).sound, (keeps hw a).live]
    rfl

theorem sound_empty : Sound {} := nofun

theorem record_of_heap (as : List Action) (hi : (run {} as).heaps[i]? = some h) :
    (record {} [] as)[i]? = some h.identities := by
  have kept : (run {} as).identities = record {} [] as := identities_run sound_empty as
  rw [← kept, identities, List.getElem?_map, hi]
  rfl

theorem granted_iff {a : Action} {t : Target} (ha : a.allocation? = some (i, t))
    (hi : w.heaps[i]? = some h) (hn : h.block? w.objects.length = none)
    (hword : h.allocated + t.bytes.length ≤ Word.max) :
    ((∃ answer, (w.step a).answer = .ok answer) ↔
      ∀ limit, h.limit = some limit → h.allocated + t.bytes.length ≤ limit) ∧
    ∀ fault, (w.step a).answer = .error fault →
      fault = .outOfMemory t.bytes.length "bytes" h.limit ∧ (w.step a).state = w := by
  by_cases hr : h.HasRoom t.bytes.length
  · obtain ⟨⟨answer, hok, _⟩, _⟩ := step_of_room ha hi hr hn
    refine ⟨⟨fun _ => hr.limit, fun _ => ⟨answer, hok⟩⟩, fun fault hf => ?_⟩
    rw [hok] at hf
    exact nomatch hf
  -- the sum fits into a word, so it is the limit that leaves no room
  · rw [step_of_no_room ha hi hr]
    refine ⟨⟨?_, fun hl => absurd ⟨hword, hl⟩ hr⟩, ?_⟩
    · rintro ⟨answer, hok⟩
      exact nomatch hok
    · rintro fault ⟨⟩
      exact ⟨rfl, rfl⟩

/-- On every heap of a run, the objects with an account are those that are live by the record, each
with its own bytes, of which ending the account can always be credited to the total. The total is that
of the live objects, the count is theirs, and the limit holds. An allocation is granted exactly if the
limit leaves room for it; one that is refused says what was asked for, and nothing has changed. -/
theorem accounts_balance (as : List Action) :
    let w := run {} as
    (∀ (i : Nat) (h : Heap), w.heaps[i]? = some h →
      ∃ live : List Nat, (record {} [] as)[i]? = some live ∧ live.Nodup ∧
      (∀ identity ∈ live, ∃ t, w.objects[identity]? = some t ∧
        h.block? identity = some ⟨identity, t.bytes.length⟩ ∧ t.bytes.length ≤ h.allocated) ∧
      (∀ identity, identity ∉ live → h.block? identity = none) ∧
      h.allocated = (live.map w.byteLength).sum ∧
      h.objectCount = live.length ∧
      ∀ limit, h.limit = some limit → h.allocated ≤ limit) ∧
    ∀ a i t h, a.allocation? = some (i, t) → w.heaps[i]? = some h →
      h.allocated + t.bytes.length ≤ Word.max →
      ((∃ answer, (w.step a).answer = .ok answer) ↔
        ∀ limit, h.limit = some limit → h.allocated + t.bytes.length ≤ limit) ∧
      ∀ fault, (w.step a).answer = .error fault →
        fault = .outOfMemory t.bytes.length "bytes" h.limit ∧ (w.step a).state = w := by
  intro w
  have hw : w.Sound := sound_run sound_empty as
  constructor
  · intro i h hi
    have hb : h.Balanced w.objects := hw h (List.mem_of_getElem? hi)
    refine ⟨h.identities, record_of_heap as hi, hb.distinct, ?_, ?_, allocated_eq hb, ?_, hb.within⟩
    · intro identity hl
      exact hb.account hl
    · intro identity hl
      exact Option.not_isSome_iff_eq_none.1 fun hs => hl (block?_isSome.1 hs)
    · exact (List.length_map _).symm
  · intro a i t h ha hi hword
    have hb : h.Balanced w.objects := hw h (List.mem_of_getElem? hi)
    exact granted_iff ha hi hb.fresh hword

theorem accounts_balance_copy :
    let as : List Action := [.new (some 4) true, .allocString 0 (.ofBytes [104, 105]),
      .make (.object (.string (.ofBytes [33]))), .copy 0, .free 1 0, .free 1 0, .free 1 1]
    let w := run {} as
    let original : Heap := { limit := some 4, allocated := 2, live := [⟨0, 2⟩], trace := true }
    let copy : Heap := { limit := some 4, trace := true }
    let a : Action := .allocStringValue 1 (.ofBytes [104, 101, 108, 108, 111])
    w.heaps = [original, copy] ∧
      (∃ live : List Nat, (record {} [] as)[0]? = some live ∧ live.Nodup ∧
        (∀ identity ∈ live, ∃ t, w.objects[identity]? = some t ∧
          original.block? identity = some ⟨identity, t.bytes.length⟩ ∧
          t.bytes.length ≤ original.allocated) ∧
        (∀ identity, identity ∉ live → original.block? identity = none) ∧
        original.allocated = (live.map w.byteLength).sum ∧
        original.objectCount = live.length ∧
        ∀ limit, original.limit = some limit → original.allocated ≤ limit) ∧
      a.allocation? = some (1, .string (.ofBytes [104, 101, 108, 108, 111])) ∧
      copy.allocated + 5 ≤ Word.max ∧
      ((∃ answer, (w.step a).answer = .ok answer) ↔
        ∀ limit, copy.limit = some limit → copy.allocated + 5 ≤ limit) ∧
      ∀ fault, (w.step a).answer = .error fault →
        fault = .outOfMemory 5 "bytes" copy.limit ∧ (w.step a).state = w := by
  refine ⟨rfl, (accounts_balance _).1 0 _ rfl, rfl, by decide, ?_⟩
  exact (accounts_balance _).2 _ 1 (.string (.ofBytes [104, 101, 108, 108, 111])) _ rfl rfl (by decide)

end HeapWorld

end ValueStorage
