import Mathlib.Data.List.Induction
import ValueStorage.Proofs.SessionFlow

/-! Two values of a session are the same reference exactly if they are copies of what one command
made. What carries this is the identity that an object is made with: it says which command made
it. -/

namespace ValueStorage

theorem Value.sameRef_self (v : Value) : v.sameRef v = v.isReference := by
  cases v <;> simp [sameRef, isReference, tag]

theorem Value.sameRef_comm (v w : Value) : v.sameRef w = w.sameRef v := by
  cases v <;> cases w <;> simp [sameRef, eq_comm]

theorem Value.sameRef_trans {v w x : Value} (h : v.sameRef w = true) (h' : w.sameRef x = true) :
    v.sameRef x = true := by
  cases v <;> cases w <;> cases x <;> simp_all [sameRef]

theorem Value.same_tag_of_sameRef {v w : Value} (h : v.sameRef w = true) :
    v.tag = .str ∧ w.tag = .str ∨ v.tag = .obj ∧ w.tag = .obj := by
  cases v <;> cases w <;> simp_all [sameRef, tag]

theorem Value.isReference_of_sameRef {v w : Value} (h : v.sameRef w = true) :
    v.isReference = true := by
  rcases same_tag_of_sameRef h with ⟨hv, _⟩ | ⟨hv, _⟩ <;> simp [isReference, hv]

theorem Value.sameRef_of_not_reference {v : Value} (h : v.isReference = false) (w : Value) :
    v.sameRef w = false := by
  cases hs : v.sameRef w with
  | false => rfl
  | true => exact nomatch h.symm.trans (isReference_of_sameRef hs)

theorem Literal.identity_of_sameRef {l l' : Literal} {m n : Nat}
    (h : (l.make m).sameRef (l'.make n) = true) : m = n := by
  cases l <;> cases l' <;> simp_all [make, Value.sameRef]

namespace HeapCommand

variable {s : Session} {name : String} {v : Value}

theorem value_of_allocated {α : Type} {into : Option String} {wrap : Handle α → Value} {target : α}
    {o : Outcome Heap (Handle α)}
    (ho : o.answer = .ok ⟨s.nextIdentity, target⟩ ∨ ∃ fault, o.answer = .error fault)
    (h : (allocated s name into wrap o).answer = .ok (.value v)) :
    v = wrap ⟨s.nextIdentity, target⟩ := by
  rcases ho with ho | ⟨fault, ho⟩
  · simp only [allocated, Session.settle, ho] at h
    cases h
    rfl
  · simp only [allocated, Session.settle, ho] at h
    cases h

theorem freed_answer_ne_value (o : Outcome Heap Bool) :
    (freed s name o).answer ≠ .ok (.value v) := by
  cases ho : o.answer <;> simp [freed, Session.settle, ho]

theorem eq_make_of_answer {command : HeapCommand} {reply : Reply}
    (h : command.run s name = .ok reply) (ha : reply.answer = .ok (.value v)) :
    ∃ l : Literal, v = l.make s.nextIdentity := by
  cases command with
  | new limit trace =>
    cases h
    exact nomatch ha
  | copy under =>
    obtain ⟨heap, _, h⟩ := bind_eq_ok h
    cases h
    exact nomatch ha
  | allocString contents into =>
    obtain ⟨heap, _, h⟩ := bind_eq_ok h
    cases h
    exact ⟨.str contents, value_of_allocated (heap.allocate_answer _ _ _ _) ha⟩
  | allocObject contents into =>
    obtain ⟨heap, _, h⟩ := bind_eq_ok h
    cases h
    exact ⟨.obj contents, value_of_allocated (heap.allocate_answer _ _ _ _) ha⟩
  | free register =>
    obtain ⟨w, _, h⟩ := bind_eq_ok h
    obtain ⟨heap, _, h⟩ := bind_eq_ok h
    cases w with
    | str handle =>
      cases h
      exact absurd ha (freed_answer_ne_value _)
    | obj handle =>
      cases h
      exact absurd ha (freed_answer_ne_value _)
    | bool | int | double => exact nomatch h

end HeapCommand

namespace Session

/-- What a place holds after some commands is what the command at a position made: that command put
it there, or it is a copy of what descends from that command. -/
inductive Descends : List Command → Place → Nat → Prop where
  | made {before : List Command} {c : Command} {p : Place}
      (h : (run {} before).flow c p = .made) : Descends (before ++ [c]) p before.length
  | copied {before : List Command} {c : Command} {p q : Place} {k : Nat}
      (h : (run {} before).flow c p = .place q) (past : Descends before q k) :
      Descends (before ++ [c]) p k

inductive Makes (s : Session) : Value → Prop where
  | constructed {l : Literal} {v : Value} {t : Session}
      (h : s.evaluate (.literal l) = .ok (v, t)) : Makes s v
  | allocated {name : String} {c : HeapCommand} {reply : Reply} {v : Value}
      (h : s.step (.heap name c) = .ok reply) (ha : reply.answer = .ok (.value v)) : Makes s v

def identityAt (commands : List Command) (k : Nat) : Nat :=
  (run {} (commands.take k)).nextIdentity

def madeAt (commands : List Command) (k : Nat) : Option Value :=
  (commands[k]?.bind Command.construction?).map (·.make (identityAt commands k))

variable {commands before later : List Command} {c : Command} {p q : Place} {v w : Value}
  {k j : Nat}

theorem run_concat (s : Session) (before : List Command) (c : Command) :
    s.run (before ++ [c]) = (s.run before).after c := by
  simp [run]

theorem Descends.lt (h : Descends commands p k) : k < commands.length := by
  induction h with
  | made h => simp
  | copied h past ih =>
    rw [List.length_append]
    exact Nat.lt_add_right _ ih

theorem identityAt_append (later : List Command) (hk : k ≤ before.length) :
    identityAt (before ++ later) k = identityAt before k := by
  rw [identityAt, List.take_append_of_le_length hk]
  rfl

theorem madeAt_append (later : List Command) (hk : k < before.length) :
    madeAt (before ++ later) k = madeAt before k := by
  rw [madeAt, identityAt_append later (Nat.le_of_lt hk), List.getElem?_append_left hk]
  rfl

theorem identityAt_length (commands : List Command) :
    identityAt commands commands.length = (run {} commands).nextIdentity := by
  rw [identityAt, List.take_length]

theorem identityAt_le_next (commands : List Command) (k : Nat) :
    identityAt commands k ≤ (run {} commands).nextIdentity := by
  induction commands using List.reverseRecOn with
  | nil => simp [identityAt]
  | append_singleton before c ih =>
    rcases Nat.lt_or_ge before.length k with hk | hk
    · have hall : (before ++ [c]).length ≤ k := by
        rw [List.length_append]
        exact hk
      have hnow : identityAt (before ++ [c]) k = (run {} (before ++ [c])).nextIdentity := by
        rw [identityAt, List.take_of_length_le hall]
      exact Nat.le_of_eq hnow
    · rw [identityAt_append [c] hk, run_concat]
      exact Nat.le_trans ih ((run {} before).after_follows c).aged

theorem identityAt_mono (h : j ≤ k) : identityAt commands j ≤ identityAt commands k := by
  have hj := identityAt_le_next (commands.take k) j
  rwa [identityAt, List.take_take, Nat.min_eq_left h] at hj

theorem Descends.identityAt_lt (h : Descends commands p k) :
    identityAt commands k < identityAt commands (k + 1) := by
  induction h with
  | @made before c p h =>
    have hnext : identityAt (before ++ [c]) (before.length + 1) =
        (run {} (before ++ [c])).nextIdentity := by
      rw [← identityAt_length, List.length_append, List.length_singleton]
    rw [hnext, identityAt_append [c] (Nat.le_refl _), identityAt_length, run_concat]
    exact ((run {} before).after_follows c).renewed p h
  | @copied before c p q k h past ih =>
    rwa [identityAt_append [c] past.lt, identityAt_append [c] (Nat.le_of_lt past.lt)]

theorem Descends.madeAt_eq (h : Descends commands p k) (hv : (run {} commands).held p = some v) :
    madeAt commands k = some v := by
  induction h with
  | @made before c p h =>
    rw [run_concat] at hv
    have hc := ((run {} before).after_follows c).carried p v hv
    rw [h] at hc
    rw [madeAt, identityAt_append [c] (Nat.le_refl _), identityAt_length,
      List.getElem?_concat_length]
    exact hc
  | @copied before c p q k h past ih =>
    rw [run_concat] at hv
    have hc := ((run {} before).after_follows c).carried p v hv
    rw [h] at hc
    rw [madeAt_append [c] past.lt]
    exact ih hc

theorem eq_make_of_madeAt (h : madeAt commands k = some v) :
    ∃ l : Literal, v = l.make (identityAt commands k) := by
  obtain ⟨l, _, hl⟩ := Option.map_eq_some_iff.1 h
  exact ⟨l, hl.symm⟩

theorem held_start (p : Place) : held {} p = none := by
  rcases p with r | ⟨n | n, i⟩
  · exact Std.TreeMap.getElem?_emptyc
  · simp [held, contents]
  · simp [held, contents]

theorem exists_descends (hv : (run {} commands).held p = some v) (hr : v.isReference = true) :
    ∃ k, Descends commands p k := by
  -- back from the last command, whose flow says where the value was held before
  induction commands using List.reverseRecOn generalizing p with
  | nil => exact nomatch (held_start p).symm.trans hv
  | append_singleton before c ih =>
    rw [run_concat] at hv
    have hc := ((run {} before).after_follows c).carried p v hv
    cases hf : (run {} before).flow c p with
    | place q =>
      rw [hf] at hc
      obtain ⟨k, past⟩ := ih hc
      exact ⟨k, .copied hf past⟩
    | made => exact ⟨before.length, .made hf⟩
    | filled =>
      rw [hf] at hc
      exact nomatch hr.symm.trans hc

theorem eq_of_identityAt (hk : identityAt commands k < identityAt commands (k + 1))
    (hj : identityAt commands j < identityAt commands (j + 1))
    (h : identityAt commands k = identityAt commands j) : k = j := by
  -- the later of two commands finds the identity of the earlier one taken
  rcases Nat.lt_trichotomy k j with hlt | heq | hgt
  · have hle : identityAt commands (k + 1) ≤ identityAt commands j := identityAt_mono hlt
    omega
  · exact heq
  · have hle : identityAt commands (j + 1) ≤ identityAt commands k := identityAt_mono hgt
    omega

theorem common_origin (hv : (run {} before).held p = some v)
    (hw : (run {} (before ++ later)).held q = some w) (h : v.sameRef w = true) :
    ∃ k, Descends before p k ∧ Descends (before ++ later) q k := by
  obtain ⟨k, hk⟩ := exists_descends hv (Value.isReference_of_sameRef h)
  obtain ⟨j, hj⟩ := exists_descends hw (Value.isReference_of_sameRef (v.sameRef_comm w ▸ h))
  obtain ⟨l, rfl⟩ := eq_make_of_madeAt (hk.madeAt_eq hv)
  obtain ⟨m, rfl⟩ := eq_make_of_madeAt (hj.madeAt_eq hw)
  have hid := Literal.identity_of_sameRef h
  have hlt : identityAt (before ++ later) k < identityAt (before ++ later) (k + 1) := by
    rw [identityAt_append later hk.lt, identityAt_append later (Nat.le_of_lt hk.lt)]
    exact hk.identityAt_lt
  rw [← identityAt_append later (Nat.le_of_lt hk.lt)] at hid
  obtain rfl := eq_of_identityAt hlt hj.identityAt_lt hid
  exact ⟨k, hk, hj⟩

theorem eq_of_common_origin (hv : (run {} before).held p = some v)
    (hw : (run {} (before ++ later)).held q = some w) (hk : Descends before p k)
    (hj : Descends (before ++ later) q k) : v = w := by
  have hmade := hj.madeAt_eq hw
  rw [madeAt_append later hk.lt, hk.madeAt_eq hv] at hmade
  exact Option.some.inj hmade

theorem Makes.eq_make {s : Session} (h : s.Makes v) : ∃ l : Literal, v = l.make s.nextIdentity := by
  cases h with
  | @constructed l _ _ h => exact ⟨l, (Prod.mk.inj (Except.ok.inj h)).1.symm⟩
  | @allocated name c reply _ h ha => exact HeapCommand.eq_make_of_answer h ha

theorem sameRef_of_makes (hm : (run {} commands).Makes v)
    (hw : (run {} commands).held p = some w) : v.sameRef w = false := by
  by_contra hne
  have hs : v.sameRef w = true := eq_true_of_ne_false hne
  obtain ⟨k, hk⟩ := exists_descends hw (Value.isReference_of_sameRef (v.sameRef_comm w ▸ hs))
  obtain ⟨l, rfl⟩ := hm.eq_make
  obtain ⟨m, rfl⟩ := eq_make_of_madeAt (hk.madeAt_eq hw)
  have hlt : identityAt commands k < (run {} commands).nextIdentity :=
    Nat.lt_of_lt_of_le hk.identityAt_lt (identityAt_le_next commands (k + 1))
  exact Nat.ne_of_gt hlt (Literal.identity_of_sameRef hs)

/-- A value held after some commands and one held then or later are the same reference exactly if
both are strings or both are objects and both descend from what one command made; then they are
equal as well. Being the same reference is symmetric and transitive, and a value is the same as
itself exactly if it is a string or an object. What is made next is the same as nothing that is
held. -/
theorem same_reference_iff_common_origin (commands later : List Command)
    (hv : (run {} commands).held p = some v) (hw : (run {} (commands ++ later)).held q = some w) :
    (v.sameRef w = true ↔ (v.tag = .str ∧ w.tag = .str ∨ v.tag = .obj ∧ w.tag = .obj) ∧
        ∃ k, Descends commands p k ∧ Descends (commands ++ later) q k) ∧
      (v.sameRef w = true → v = w) ∧
      (v.isReference = false → ∀ x, v.sameRef x = false ∧ x.sameRef v = false) ∧
      (v.sameRef v = true ↔ v.tag = .str ∨ v.tag = .obj) ∧
      v.sameRef w = w.sameRef v ∧
      (∀ x, v.sameRef w = true → w.sameRef x = true → v.sameRef x = true) ∧
      ∀ x, (run {} commands).Makes x → x.sameRef v = false ∧ v.sameRef x = false := by
  have hsame : v.sameRef w = true → ∃ k, Descends commands p k ∧ Descends (commands ++ later) q k :=
    common_origin hv hw
  refine ⟨⟨?_, ?_⟩, ?_, ?_, ?_, v.sameRef_comm w, ?_, ?_⟩
  · intro h
    exact ⟨Value.same_tag_of_sameRef h, hsame h⟩
  · rintro ⟨ht, k, hk, hj⟩
    obtain rfl := eq_of_common_origin hv hw hk hj
    rw [v.sameRef_self]
    rcases ht with ⟨ht, _⟩ | ⟨ht, _⟩ <;> simp [Value.isReference, ht]
  · intro h
    obtain ⟨k, hk, hj⟩ := hsame h
    exact eq_of_common_origin hv hw hk hj
  · intro hr x
    have hx := Value.sameRef_of_not_reference hr x
    exact ⟨hx, v.sameRef_comm x ▸ hx⟩
  · rw [v.sameRef_self]
    simp [Value.isReference]
  · intro x h h'
    exact Value.sameRef_trans h h'
  · intro x hx
    have hx := sameRef_of_makes hx hv
    exact ⟨hx, v.sameRef_comm x ▸ hx⟩

theorem same_reference_iff_common_origin_replaced :
    let text : StringObject := .ofBytes [104, 105]
    let commands : List Command := [.register (.bind "a" (.literal (.str text))),
      .array "xs" (.new {}), .array "xs" (.push (.register "a"))]
    let later : List Command := [.heap "h" (.new none false), .heap "h" (.free "a"),
      .array "xs" (.set 0 (.literal (.str text)) (some "b"))]
    let slot : Place := .slot (.array "xs") 0
    (run {} commands).held slot = some (.str ⟨0, text⟩) ∧
      (run {} (commands ++ later)).held (.register "b") = some (.str ⟨0, text⟩) ∧
      (run {} (commands ++ later)).held slot = some (.str ⟨1, text⟩) ∧
      (∃ k, Descends commands slot k ∧ Descends (commands ++ later) (.register "b") k) ∧
      ¬ ∃ k, Descends commands slot k ∧ Descends (commands ++ later) slot k := by
  intro text commands later slot
  have hv : (run {} commands).held slot = some (.str ⟨0, text⟩) := by decide
  have hb : (run {} (commands ++ later)).held (.register "b") = some (.str ⟨0, text⟩) := by decide
  have hw : (run {} (commands ++ later)).held slot = some (.str ⟨1, text⟩) := by decide
  refine ⟨hv, hb, hw, ?_, ?_⟩
  · obtain ⟨same, -⟩ := same_reference_iff_common_origin commands later hv hb
    exact (same.1 rfl).2
  · obtain ⟨same, -⟩ := same_reference_iff_common_origin commands later hv hw
    intro origin
    exact nomatch same.2 ⟨.inl ⟨rfl, rfl⟩, origin⟩

end Session

end ValueStorage
