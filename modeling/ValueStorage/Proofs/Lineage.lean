import Mathlib.Data.List.Forall2

/-! Lists of things that are alive together, beside a list of what is known of the past of each. A
thing can be new, it can be a copy and take over the past of its original, and one of them can change
and add to its own past. What holds between each thing and its past is kept in all three cases. -/

namespace ValueStorage.Lineage

open List (Forall₂)

variable {σ π : Type} {R : σ → π → Prop} {things : List σ} {pasts : List π} {i : Nat}

theorem set_self {thing : σ} (hi : things[i]? = some thing) : things.set i thing = things := by
  obtain ⟨hlt, rfl⟩ := List.getElem?_eq_some_iff.1 hi
  exact List.set_getElem_self hlt

theorem rel_getElem? (h : Forall₂ R things pasts) (i : Nat) : Option.Rel R things[i]? pasts[i]? := by
  induction h generalizing i with
  | nil => exact .none
  | cons hr _ ih =>
    cases i with
    | zero => exact .some hr
    | succ i => exact ih i

theorem past_of_thing (h : Forall₂ R things pasts) {thing : σ} (hi : things[i]? = some thing) :
    ∃ past, pasts[i]? = some past ∧ R thing past := by
  have hrel := rel_getElem? h i
  rw [hi] at hrel
  generalize pasts[i]? = known at hrel
  cases hrel with
  | some hr => exact ⟨_, rfl, hr⟩

theorem forall₂_new (h : Forall₂ R things pasts) {thing : σ} {past : π} (hr : R thing past) :
    Forall₂ R (things ++ [thing]) (pasts ++ [past]) :=
  List.rel_append h (.cons hr .nil)

theorem forall₂_copy (h : Forall₂ R things pasts) (i : Nat) :
    Forall₂ R (things ++ things[i]?.toList) (pasts ++ pasts[i]?.toList) := by
  refine List.rel_append h ?_
  have hrel := rel_getElem? h i
  generalize things[i]? = thing at hrel
  generalize pasts[i]? = past at hrel
  cases hrel with
  | none => exact .nil
  | some hr => exact .cons hr .nil

theorem forall₂_set_modify {S : σ → π → Prop} (h : Forall₂ R things pasts)
    (hs : ∀ thing past, R thing past → S thing past) {thing changed : σ} {f : π → π}
    (hi : things[i]? = some thing) (hr : ∀ past, R thing past → S changed (f past)) :
    Forall₂ S (things.set i changed) (pasts.modify i f) := by
  induction h generalizing i with
  | nil => exact nomatch hi
  | cons hrel hrest ih =>
    cases i with
    | zero =>
      cases hi
      exact .cons (hr _ hrel) (hrest.imp hs)
    | succ i => exact .cons (hs _ _ hrel) (ih hi)

theorem forall₂_modify (h : Forall₂ R things pasts) {f : π → π}
    (hr : ∀ thing past, things[i]? = some thing → R thing past → R thing (f past)) :
    Forall₂ R things (pasts.modify i f) := by
  cases hi : things[i]? with
  | none =>
    have absent : pasts.length ≤ i := by
      rw [← h.length_eq]
      exact List.getElem?_eq_none_iff.1 hi
    rw [List.modify_eq_self absent]
    exact h
  | some thing =>
    rw [← set_self hi]
    exact forall₂_set_modify h (fun _ _ hs => hs) hi fun past => hr thing past hi

end ValueStorage.Lineage
