import ValueStorage.Proofs.HeapAccounts
import ValueStorage.Proofs.Lineage

/-! Frees in any order. Ending two accounts leaves a heap the same whichever of them is ended first,
so all that matters of a list of frees is which objects are on it. Of the frees of one object, the
first ends its account if it has one, and the others find none. -/

namespace ValueStorage

namespace Heap

def releaseAll (h : Heap) (identities : List Nat) : Heap := identities.foldl release h

def freedBy : Heap → List Nat → List Bool
  | _, [] => []
  | h, n :: ns => (h.block? n).isSome :: (h.release n).freedBy ns

variable {h : Heap} {objects : List Target}

def credit (h : Heap) (identity : Nat) : Nat := ((h.block? identity).map Block.bytes).getD 0

theorem block?_release_of_ne (h : Heap) {a b : Nat} (hne : b ≠ a) :
    (h.release a).block? b = h.block? b := by
  have apart (c : Block) : (c.identity != a ∧ c.identity == b) ↔ c.identity == b := by
    simp only [bne_iff_ne, beq_iff_eq, and_iff_right_iff_imp]
    rintro rfl
    exact hne
  simp only [block?, release, List.find?_filter, apart, Bool.decide_eq_true]

theorem release_release (h : Heap) {a b : Nat} (hne : b ≠ a) : (h.release a).release b =
    { h with
      live := h.live.filter fun c => c.identity != a && c.identity != b
      allocated := h.allocated - (h.credit a + h.credit b) } := by
  have credits : (h.release a).credit b = h.credit b := by
    rw [credit, h.block?_release_of_ne hne, credit]
  have total : ((h.release a).release b).allocated = h.allocated - (h.credit a + h.credit b) := by
    change h.allocated - h.credit a - (h.release a).credit b = _
    rw [credits, Nat.sub_sub]
  have kept : ((h.release a).release b).live =
      h.live.filter fun c => c.identity != a && c.identity != b := by
    simp only [release, List.filter_filter, Bool.and_comm]
  rw [← total, ← kept]
  rfl

theorem release_comm (h : Heap) (a b : Nat) :
    (h.release a).release b = (h.release b).release a := by
  rcases eq_or_ne b a with rfl | hne
  · rfl
  · rw [h.release_release hne, h.release_release hne.symm, Nat.add_comm]
    simp only [Bool.and_comm]

theorem releaseAll_perm {ps ns : List Nat} (hp : ps.Perm ns) (h : Heap) :
    h.releaseAll ps = h.releaseAll ns :=
  hp.foldl_eq' (fun a _ b _ h => h.release_comm a b) h

theorem live_releaseAll (h : Heap) (ns : List Nat) :
    (h.releaseAll ns).live = h.live.filter (·.identity ∉ ns) := by
  induction ns generalizing h with
  | nil => simp [releaseAll]
  | cons n ns ih =>
    change ((h.release n).releaseAll ns).live = _
    rw [ih, release, List.filter_filter]
    refine List.filter_congr fun b _ => ?_
    by_cases hb : b.identity = n <;> simp [hb]

theorem kept_releaseAll (h : Heap) (ns : List Nat) :
    (h.releaseAll ns).limit = h.limit ∧ (h.releaseAll ns).trace = h.trace := by
  induction ns generalizing h with
  | nil => exact ⟨rfl, rfl⟩
  | cons n ns ih => exact ih (h.release n)

theorem balanced_releaseAll (hb : h.Balanced objects) (ns : List Nat) :
    (h.releaseAll ns).Balanced objects := by
  induction ns generalizing h with
  | nil => exact hb
  | cons n ns ih => exact ih (hb.release n)

theorem identities_releaseAll (h : Heap) (ns : List Nat) :
    (h.releaseAll ns).identities = h.identities.filter (· ∉ ns) := by
  rw [identities, live_releaseAll, identities, List.filter_map]
  rfl

theorem count_freedBy (h : Heap) (ns : List Nat) (n : Nat) :
    (ns.zip (h.freedBy ns)).count (n, true) = if n ∈ ns ∧ n ∈ h.identities then 1 else 0 := by
  induction ns generalizing h with
  | nil => simp
  | cons m ns ih =>
    have hlive (k : Nat) : k ∈ (h.release m).identities ↔ k ∈ h.identities ∧ k ≠ m := by
      simp [identities_release]
    have hfirst : (m, (h.block? m).isSome) = (n, true) ↔ m = n ∧ n ∈ h.identities := by
      rw [Prod.mk.injEq, block?_isSome]
      exact and_congr_right fun he => by rw [he]
    rw [freedBy, List.zip_cons_cons, List.count_cons, ih]
    simp only [hlive, beq_iff_eq, hfirst, List.mem_cons]
    by_cases he : m = n
    -- the first free of an object leaves none live for the later ones
    · simp [he]
    · simp [he, Ne.symm he]

end Heap

namespace HeapWorld

open Heap

variable {w : HeapWorld} {i : Nat} {h : Heap}

def frees (i : Nat) (identities : List Nat) : List Action := identities.map (.free i)

theorem run_frees (hi : w.heaps[i]? = some h) {ns : List Nat}
    (hns : ∀ n ∈ ns, n < w.objects.length) :
    w.run (frees i ns) = { w with heaps := w.heaps.set i (h.releaseAll ns) } ∧
      w.transcript (frees i ns) = (h.freedBy ns).map (.ok ∘ .freed) := by
  induction ns generalizing w h with
  | nil =>
    refine ⟨?_, rfl⟩
    change w = { w with heaps := w.heaps.set i h }
    rw [Lineage.set_self hi]
  | cons n ns ih =>
    have hn : n < w.objects.length := hns n (List.mem_cons_self ..)
    obtain ⟨hanswer, hstate⟩ := step_free_of_object (List.getElem?_eq_getElem hn) hi
    have hlt : i < w.heaps.length := (List.getElem?_eq_some_iff.1 hi).1
    have hnext : (w.step (.free i n)).state.heaps[i]? = some (h.release n) := by
      rw [hstate]
      exact List.getElem?_set_self hlt
    have hobjects : (w.step (.free i n)).state.objects = w.objects := by rw [hstate]
    obtain ⟨hrun, hanswers⟩ := ih hnext fun m hm => by
      rw [hobjects]
      exact hns m (List.mem_cons_of_mem n hm)
    constructor
    · change (w.step (.free i n)).state.run (frees i ns) = _
      rw [hrun, hstate, List.set_set]
      rfl
    · change (w.step (.free i n)).answer :: (w.step (.free i n)).state.transcript (frees i ns) = _
      rw [hanswers, hanswer]
      rfl

theorem credited (hb : h.Balanced w.objects) (ns : List Nat) :
    (h.releaseAll ns).allocated +
        ((ns.dedup.filter (· ∈ h.identities)).map w.byteLength).sum = h.allocated := by
  have hgone : (ns.dedup.filter (· ∈ h.identities)).Perm (h.identities.filter (· ∈ ns)) := by
    refine (List.perm_ext_iff_of_nodup (ns.nodup_dedup.filter _) (hb.distinct.filter _)).2 ?_
    intro n
    simp [and_comm]
  have hall : (h.identities.filter (· ∈ ns) ++ h.identities.filter (· ∉ ns)).Perm h.identities := by
    simpa using List.filter_append_perm (· ∈ ns) h.identities
  rw [allocated_eq hb, allocated_eq (balanced_releaseAll hb ns), identities_releaseAll,
    (hgone.map w.byteLength).sum_nat, ← (hall.map w.byteLength).sum_nat, List.map_append,
    List.sum_append, Nat.add_comm]

/-- After any run, frees of some objects on a heap lead to the same world in whatever order they are
made. The live objects of that heap are then those that are not on the list, with the accounts they
had, and what was credited is the bytes of the objects on the list that were live. Of the frees of
such an object exactly one is answered with yes, and of those of any other object none. -/
theorem frees_commute (as : List Action) {i : Nat} {h : Heap}
    (hi : (run {} as).heaps[i]? = some h) {ns : List Nat}
    (hns : ∀ n ∈ ns, n < (run {} as).objects.length) :
    let w := run {} as
    ∃ (live : List Nat) (g : Heap), (record {} [] as)[i]? = some live ∧
      g.limit = h.limit ∧ g.trace = h.trace ∧ g.live = h.live.filter (·.identity ∉ ns) ∧
      g.allocated + ((ns.dedup.filter (· ∈ live)).map w.byteLength).sum = h.allocated ∧
      ∀ ps : List Nat, ps.Perm ns →
        w.run (frees i ps) = { w with heaps := w.heaps.set i g } ∧
        ∃ freed : List Bool, w.transcript (frees i ps) = freed.map (.ok ∘ .freed) ∧
          ∀ n ∈ ps, (ps.zip freed).count (n, true) = if n ∈ live then 1 else 0 := by
  intro w
  have hb : h.Balanced w.objects := sound_run sound_empty as h (List.mem_of_getElem? hi)
  refine ⟨h.identities, h.releaseAll ns, record_of_heap as hi, (h.kept_releaseAll ns).1,
    (h.kept_releaseAll ns).2, h.live_releaseAll ns, credited hb ns, ?_⟩
  intro ps hp
  obtain ⟨hrun, hanswers⟩ := run_frees hi fun n hn => hns n (hp.mem_iff.1 hn)
  refine ⟨?_, h.freedBy ps, hanswers, ?_⟩
  · rw [hrun, releaseAll_perm hp]
  · intro n hn
    rw [count_freedBy]
    simp [hn]

theorem frees_commute_copy :
    let as : List Action := [.new (some 9) true, .allocString 0 (.ofBytes [104, 105]),
      .allocObject 0 (.string (.ofBytes [33])), .allocStringValue 0 (.ofBytes [97, 98, 99]),
      .free 0 2, .copy 0, .make (.object (.string (.ofBytes [33])))]
    let w := run {} as
    let h : Heap := { limit := some 9, allocated := 3, live := [⟨1, 1⟩, ⟨0, 2⟩], trace := true }
    let ns : List Nat := [0, 3, 2, 0]
    w.heaps[1]? = some h ∧ (∀ n ∈ ns, n < w.objects.length) ∧ [2, 0, 0, 3].Perm ns ∧
      ∃ (live : List Nat) (g : Heap), (record {} [] as)[1]? = some live ∧
        g.limit = h.limit ∧ g.trace = h.trace ∧ g.live = h.live.filter (·.identity ∉ ns) ∧
        g.allocated + ((ns.dedup.filter (· ∈ live)).map w.byteLength).sum = h.allocated ∧
        w.run (frees 1 [2, 0, 0, 3]) = { w with heaps := w.heaps.set 1 g } ∧
        ∃ freed : List Bool, w.transcript (frees 1 [2, 0, 0, 3]) = freed.map (.ok ∘ .freed) ∧
          ∀ n ∈ [2, 0, 0, 3],
            ([2, 0, 0, 3].zip freed).count (n, true) = if n ∈ live then 1 else 0 := by
  intro as w h ns
  have hi : w.heaps[1]? = some h := rfl
  have hns : ∀ n ∈ ns, n < w.objects.length := by decide
  have hp : [2, 0, 0, 3].Perm ns := by decide
  obtain ⟨live, g, hlive, hlimit, htrace, hkept, hcredit, hany⟩ := frees_commute as hi hns
  exact ⟨hi, hns, hp, live, g, hlive, hlimit, htrace, hkept, hcredit, hany _ hp⟩

end HeapWorld

end ValueStorage
