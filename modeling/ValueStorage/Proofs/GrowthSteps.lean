import Mathlib.Algebra.Ring.Nat
import Mathlib.Order.MinMax
import ValueStorage.Growth

/-! The capacities that a policy leads to, in unbounded numbers. A growth is refused exactly where a word
is too narrow for the numbers it is made from, and from there on for good. Elsewhere it is exact, grows
with everything that it depends on, and leads on by one slot at least, so that any size is reached
unless the word ends first. -/

namespace ValueStorage.GrowthPolicy

variable {p q : GrowthPolicy} {old old' new new' : Nat}

def after? (p : GrowthPolicy) (start : Nat) : Nat → Option Nat
  | 0 => some start
  | steps + 1 => (p.after? start steps).bind p.next?

theorem next?_eq_ite (p : GrowthPolicy) (old : Nat) : p.next? old =
    if old * p.factor ≤ Word.max ∧ old + 1 ≤ Word.max
      then some (max p.minimumBlock (max (old * p.factor) (old + 1))) else none := by
  have hmax : max (max (old * p.factor) p.minimumBlock) (old + 1) =
      max p.minimumBlock (max (old * p.factor) (old + 1)) := by
    rw [max_comm (old * p.factor), max_assoc]
  split
  · next h => exact next?_eq_some.2 ⟨h.2, h.1, hmax⟩
  · next h =>
    refine Option.eq_none_iff_forall_ne_some.2 fun new hnew => ?_
    obtain ⟨hlarger, hmultiplied, _⟩ := next?_eq_some.1 hnew
    exact h ⟨hmultiplied, hlarger⟩

theorem next?_eq_none : p.next? old = none ↔ Word.max < old * p.factor ∨ Word.max < old + 1 := by
  rw [next?_eq_ite]
  split <;> simp <;> omega

theorem le_max_of_next? (h : p.next? old = some new) (hp : p.minimumBlock ≤ Word.max) :
    new ≤ Word.max := by
  obtain ⟨hlarger, hmultiplied, rfl⟩ := next?_eq_some.1 h
  exact max_le (max_le hmultiplied hp) hlarger

theorem next?_mono (hblock : p.minimumBlock ≤ q.minimumBlock) (hfactor : p.factor ≤ q.factor)
    (hold : old ≤ old') (h : p.next? old = some new) (h' : q.next? old' = some new') :
    new ≤ new' := by
  obtain ⟨_, _, rfl⟩ := next?_eq_some.1 h
  obtain ⟨_, _, rfl⟩ := next?_eq_some.1 h'
  exact max_le_max (max_le_max (Nat.mul_le_mul hold hfactor) hblock) (Nat.succ_le_succ hold)

theorem next?_eq_none_of_le (hold : old ≤ old') (h : p.next? old = none) : p.next? old' = none := by
  rw [next?_eq_none] at h ⊢
  have hmultiplied : old * p.factor ≤ old' * p.factor := Nat.mul_le_mul_right _ hold
  omega

/-! The default policy. -/

theorem defaultNext_eq (old : Nat) : defaultNext old = min Word.max (max 8 (2 * old)) := by
  have hblock : 8 ≤ Word.max := by decide
  have hfactor : ({} : GrowthPolicy).factor = 2 := rfl
  have hminimum : ({} : GrowthPolicy).minimumBlock = 8 := rfl
  rw [defaultNext, next?_eq_ite, hfactor, hminimum]
  split
  · rw [Option.getD_some]
    omega
  · rw [Option.getD_none]
    omega

theorem monotone_defaultNext : Monotone defaultNext := by
  intro old old' hold
  rw [defaultNext_eq, defaultNext_eq]
  omega

theorem defaultNext_eq_self_iff : defaultNext old = old ↔ old = Word.max := by
  have hblock : 8 ≤ Word.max := by decide
  rw [defaultNext_eq]
  omega

/-! Many growths. -/

theorem add_le_of_after? {start steps reached : Nat} (h : p.after? start steps = some reached) :
    start + steps ≤ reached := by
  induction steps generalizing reached with
  | zero => exact Nat.le_of_eq (Option.some.inj h)
  | succ steps ih =>
    obtain ⟨before, hbefore, hnext⟩ := Option.bind_eq_some_iff.1 h
    exact (Nat.succ_le_succ (ih hbefore)).trans (lt_of_next? hnext)

theorem exists_reached (p : GrowthPolicy) (start target : Nat) : ∃ steps ≤ target - start,
    p.after? start steps = none ∨ ∃ reached, target ≤ reached ∧
      p.after? start steps = some reached := by
  refine ⟨target - start, le_rfl, ?_⟩
  cases h : p.after? start (target - start) with
  | none => exact .inl rfl
  | some reached =>
    have hle : start + (target - start) ≤ reached := add_le_of_after? h
    exact .inr ⟨reached, by omega, rfl⟩

/-- In unbounded numbers, the capacity after another is the largest of the minimum block, the multiple and
the successor, and there is one exactly if a word can hold both the multiple and the successor. It is
larger than the one before and fits a word itself; it is monotone in all that it depends on, and once
there is none there is none for a larger one. Under the default policy it is twice the one before, but
at least 8 and at most the largest size, which alone leads to itself. Growing on reaches every size, or
is refused, after at most as many growths as there are slots between. -/
theorem grows_exactly_within_word (p : GrowthPolicy) :
    (∀ old, p.next? old = if old * p.factor ≤ 2 ^ 64 - 1 ∧ old + 1 ≤ 2 ^ 64 - 1
      then some (max p.minimumBlock (max (old * p.factor) (old + 1))) else none) ∧
    (∀ old new, p.next? old = some new →
      old < new ∧ (p.minimumBlock ≤ 2 ^ 64 - 1 → new ≤ 2 ^ 64 - 1)) ∧
    (∀ q : GrowthPolicy, p.minimumBlock ≤ q.minimumBlock → p.factor ≤ q.factor →
      ∀ old old' new new', old ≤ old' → p.next? old = some new → q.next? old' = some new' →
        new ≤ new') ∧
    (∀ old old', old ≤ old' → p.next? old = none → p.next? old' = none) ∧
    (∀ old, defaultNext old = min (2 ^ 64 - 1) (max 8 (2 * old))) ∧
    Monotone defaultNext ∧
    (∀ old, defaultNext old = old ↔ old = 2 ^ 64 - 1) ∧
    ∀ start target, ∃ steps ≤ target - start,
      p.after? start steps = none ∨
        ∃ reached, target ≤ reached ∧ p.after? start steps = some reached := by
  have hword : 2 ^ 64 - 1 = Word.max := rfl
  rw [hword]
  refine ⟨p.next?_eq_ite, ?_, ?_, ?_, defaultNext_eq, monotone_defaultNext, ?_, p.exists_reached⟩
  · intro old new h
    exact ⟨lt_of_next? h, le_max_of_next? h⟩
  · intro q hblock hfactor old old' new new' hold h h'
    exact next?_mono hblock hfactor hold h h'
  · intro old old' hold h
    exact next?_eq_none_of_le hold h
  · intro old
    exact defaultNext_eq_self_iff

theorem grows_exactly_within_word_degenerate :
    let p : GrowthPolicy := ⟨0, 0⟩
    let q : GrowthPolicy := ⟨4, 3⟩
    p.next? 5 = some 6 ∧ 5 < 6 ∧ p.minimumBlock ≤ 2 ^ 64 - 1 ∧ 6 ≤ 2 ^ 64 - 1 ∧
      p.minimumBlock ≤ q.minimumBlock ∧ p.factor ≤ q.factor ∧ q.next? 7 = some 21 ∧ 6 ≤ 21 ∧
      p.next? (2 ^ 64 - 2) = some (2 ^ 64 - 1) ∧ p.next? (2 ^ 64 - 1) = none ∧
      q.next? (2 ^ 63) = none ∧ q.next? (2 ^ 64 - 2) = none ∧
      ∃ steps ≤ 100, p.after? 0 steps = none ∨
        ∃ reached, 100 ≤ reached ∧ p.after? 0 steps = some reached := by
  intro p q
  obtain ⟨hnext, hfits, hmono, _, _, _, _, hreach⟩ := grows_exactly_within_word p
  obtain ⟨_, _, _, hnone, _⟩ := grows_exactly_within_word q
  have hsix : p.next? 5 = some 6 := by decide
  have htriple : q.next? 7 = some 21 := by decide
  have hblock : p.minimumBlock ≤ 2 ^ 64 - 1 := by decide
  have htop : q.next? (2 ^ 63) = none := by decide
  exact ⟨hsix, (hfits 5 6 hsix).1, hblock, (hfits 5 6 hsix).2 hblock, by decide, by decide, htriple,
    hmono q (by decide) (by decide) 5 7 6 21 (by decide) hsix htriple, hnext _, hnext _, htop,
    hnone _ _ (by decide) htop, hreach 0 100⟩

end ValueStorage.GrowthPolicy
