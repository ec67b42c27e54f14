import Mathlib.Tactic.Common
import ValueStorage.Session.Command
import ValueStorage.Proofs.SlotsList

/-! How values move through a session. A value is held in a register or in a slot of an array or a
pool. Where one is held after a command, the command has left it there, brought it along from
another place, made it new, or filled the place with a number. -/

namespace ValueStorage

inductive Store where
  | array (name : String)
  | pool (name : String)
deriving DecidableEq

inductive Place where
  | register (name : String)
  | slot (store : Store) (index : Nat)
deriving DecidableEq

/-- Where a value comes from that a place holds after a command: from a place that held it before, the
same one if it has stayed, or it was made for the command, or it is one of the numbers of a series. -/
inductive Source where
  | place (p : Place)
  | made
  | filled
deriving DecidableEq

namespace Source

def put (target : Place) (source : Source) (p : Place) : Source :=
  if p = target then source else .place p

def kept (into : Option String) (source : Source) (p : Place) : Source :=
  match into with
  | none => .place p
  | some name => put (.register name) source p

def filledFrom (store : Store) (start : Nat) : Place → Source
  | .register name => .place (.register name)
  | .slot other index =>
    if other = store ∧ start ≤ index then .filled else .place (.slot other index)

def copied (original under : Store) : Place → Source
  | .register name => .place (.register name)
  | .slot other index =>
    if other = under then .place (.slot original index) else .place (.slot other index)

end Source

def Operand.source : Operand → Source
  | .literal _ => .made
  | .register name => .place (.register name)

def Operand.literal? : Operand → Option Literal
  | .literal l => some l
  | .register _ => none

def Command.construction? : Command → Option Literal
  | .register (.bind _ v) => v.literal?
  | .array _ (.push v) => v.literal?
  | .array _ (.set _ v _) => v.literal?
  | .pool _ (.add v) => v.literal?
  | .heap _ (.allocString contents _) => some (.str contents)
  | .heap _ (.allocObject contents _) => some (.obj contents)
  | _ => none

namespace Session

def contents (s : Session) : Store → Array Value
  | .array name => (s.arrays[name]?.map (·.values)).getD #[]
  | .pool name => (s.pools[name]?.map (·.constants.values)).getD #[]

def held (s : Session) : Place → Option Value
  | .register name => s.registers[name]?
  | .slot store index => (s.contents store)[index]?

/-- Where the values come from that are held after a command that met no fault. -/
def moves (s : Session) : Command → Place → Source
  | .register (.bind name v) => .put (.register name) v.source
  | .array name (.create _ _ _) => .filledFrom (.array name) 0
  | .array name (.push v) =>
    .put (.slot (.array name) (s.contents (.array name)).size) v.source
  | .array name (.pushInts _ _) => .filledFrom (.array name) (s.contents (.array name)).size
  | .array name (.get index into) => .kept into (.place (.slot (.array name) index))
  | .array name (.set index v into) => fun p =>
    if p = .slot (.array name) index then v.source
    else .kept into (.place (.slot (.array name) index)) p
  | .array name (.pop into) =>
    .kept into (.place (.slot (.array name) ((s.contents (.array name)).size - 1)))
  | .array name (.peek into) =>
    .kept into (.place (.slot (.array name) ((s.contents (.array name)).size - 1)))
  | .array name (.copy under) => .copied (.array name) (.array under)
  | .pool name (.add v) => .put (.slot (.pool name) (s.contents (.pool name)).size) v.source
  | .pool name (.addInts _ _) => .filledFrom (.pool name) (s.contents (.pool name)).size
  | .pool name (.get index into) => .kept into (.place (.slot (.pool name) index.toNat))
  | .pool name (.copyConstants under) => .copied (.pool name) (.array under)
  | .pool name (.copy under) => .copied (.pool name) (.pool under)
  | .heap _ (.allocString _ into) => .kept into .made
  | .heap _ (.allocObject _ into) => .kept into .made
  | _ => .place

end Session

def FilledFrom (old : Array Value) (start : Nat) (values : Array Value) : Prop :=
  ∀ (i : Nat) v, values[i]? = some v → if start ≤ i then v.isReference = false else old[i]? = some v

def Reply.flow (reply : Reply) (moves : Place → Source) : Place → Source :=
  match reply.answer with
  | .ok _ => moves
  | .error _ => .place

namespace Session

def flow (s : Session) (c : Command) : Place → Source :=
  match s.step c with
  | .ok reply => reply.flow (s.moves c)
  | .error _ => .place

def Carries (s : Session) (made : Option Literal) (v : Value) : Source → Prop
  | .place p => s.held p = some v
  | .made => made.map (·.make s.nextIdentity) = some v
  | .filled => v.isReference = false

structure Follows (s : Session) (made : Option Literal) (flow : Place → Source) (t : Session) :
    Prop where
  carried : ∀ p v, t.held p = some v → s.Carries made v (flow p)
  aged : s.nextIdentity ≤ t.nextIdentity
  renewed : ∀ p, flow p = .made → s.nextIdentity < t.nextIdentity

def heldWith (s : Session) (store : Store) (values : Array Value) : Place → Option Value
  | .register name => s.held (.register name)
  | .slot other index => if other = store then values[index]? else s.held (.slot other index)

variable {s t u : Session} {made : Option Literal} {name : String} {into : Option String}
  {store : Store} {v w : Value} {p : Place}

theorem getElem?_insert {α : Type} (names : Names α) (name other : String) (x : α) :
    (names.insert name x)[other]? = if other = name then some x else names[other]? := by
  simp only [Std.TreeMap.getElem?_insert, Std.LawfulEqCmp.compare_eq_iff_eq]
  exact if_congr eq_comm rfl rfl

theorem lookup_eq_ok {α : Type} {names : Names α} {x : α} (h : lookup names name = .ok x) :
    names[name]? = some x := by
  unfold lookup at h
  split at h
  · next hx => rw [hx, Except.ok.inj h]
  · exact nomatch h

theorem contents_of_array {a : Slots} (h : lookup s.arrays name = .ok a) :
    s.contents (.array name) = a.values := by
  rw [contents, lookup_eq_ok h]
  rfl

theorem contents_of_pool {pool : Pool} (h : lookup s.pools name = .ok pool) :
    s.contents (.pool name) = pool.constants.values := by
  rw [contents, lookup_eq_ok h]
  rfl

theorem held_bindArray (s : Session) (name : String) (a : Slots) :
    (s.bindArray name a).held = s.heldWith (.array name) a.values := by
  funext p
  rcases p with r | ⟨n | n, i⟩
  · rfl
  · have h : (s.bindArray name a).arrays[n]? = _ := getElem?_insert s.arrays name n a
    simp only [held, heldWith, contents, h, Store.array.injEq]
    split <;> rfl
  · rfl

theorem held_bindPool (s : Session) (name : String) (pool : Pool) :
    (s.bindPool name pool).held = s.heldWith (.pool name) pool.constants.values := by
  funext p
  rcases p with r | ⟨n | n, i⟩
  · rfl
  · rfl
  · have h : (s.bindPool name pool).pools[n]? = _ := getElem?_insert s.pools name n pool
    simp only [held, heldWith, contents, h, Store.pool.injEq]
    split <;> rfl

theorem heldWith_cases {values : Array Value} (h : s.heldWith store values p = some v) :
    (∃ i, p = .slot store i ∧ values[i]? = some v) ∨
      (∀ i, p ≠ .slot store i) ∧ s.held p = some v := by
  rcases p with r | ⟨other, i⟩
  · exact .inr ⟨fun _ he => (nomatch he), h⟩
  · rw [heldWith] at h
    split at h
    · next he => exact .inl ⟨i, by rw [he], h⟩
    · next he => exact .inr ⟨fun _ hp => he (Place.slot.inj hp).1, h⟩

theorem held_keep_cases (h : (s.keep into w).held p = some v) :
    (∃ name, into = some name ∧ p = .register name ∧ v = w) ∨
      (∀ name, into = some name → p ≠ .register name) ∧ s.held p = some v := by
  cases into with
  | none => exact .inr ⟨fun _ hn => (nomatch hn), h⟩
  | some name =>
    rcases p with r | ⟨store, i⟩
    · have hr : (s.keep (some name) w).registers[r]? = _ := getElem?_insert s.registers name r w
      simp only [held, hr] at h
      split at h
      · next he => exact .inl ⟨name, rfl, by rw [he], (Option.some.inj h).symm⟩
      · next he =>
        refine .inr ⟨?_, h⟩
        intro other ho hp
        cases ho
        exact he (Place.register.inj hp)
    · exact .inr ⟨fun _ _ hp => (nomatch hp), h⟩

theorem held_of_erased_register
    (h : { s with registers := s.registers.erase name }.held p = some v) : s.held p = some v := by
  rcases p with r | ⟨store, i⟩
  · simp only [held, Std.TreeMap.getElem?_erase] at h
    split at h
    · exact nomatch h
    · exact h
  · exact h

theorem held_of_erased_array (h : { s with arrays := s.arrays.erase name }.held p = some v) :
    s.held p = some v := by
  rcases p with r | ⟨n | n, i⟩
  · exact h
  · simp only [held, contents, Std.TreeMap.getElem?_erase] at h
    split at h
    · exact nomatch h
    · exact h
  · exact h

theorem nextIdentity_keep : (s.keep into w).nextIdentity = s.nextIdentity := by
  cases into <;> rfl

theorem made_of_put {target : Place} {source : Source} (h : Source.put target source p = .made) :
    source = .made := by
  rw [Source.put] at h
  split at h
  · exact h
  · exact nomatch h

theorem made_of_kept {source : Source} (h : Source.kept into source p = .made) :
    source = .made := by
  cases into with
  | none => exact nomatch h
  | some name => exact made_of_put h

theorem filledFrom_ne_made (store : Store) (start : Nat) (p : Place) :
    Source.filledFrom store start p ≠ .made := by
  cases p <;> grind [Source.filledFrom]

theorem copied_ne_made (original under : Store) (p : Place) :
    Source.copied original under p ≠ .made := by
  cases p <;> grind [Source.copied]

theorem carries_put {values : Array Value} {index : Nat} {source : Source}
    (hw : s.Carries made w source)
    (hv : ∀ i : Nat, values[i]? = if i = index then some w else (s.contents store)[i]?)
    (h : s.heldWith store values p = some v) :
    s.Carries made v (.put (.slot store index) source p) := by
  obtain ⟨i, rfl, hi⟩ | ⟨hne, hp⟩ := heldWith_cases h
  · rw [hv i] at hi
    rw [Source.put]
    split at hi
    · next he => rwa [if_pos (by rw [he]), ← Option.some.inj hi]
    · next he => rwa [if_neg fun hp => he (Place.slot.inj hp).2]
  · rwa [Source.put, if_neg (hne index)]

theorem carries_filledFrom {values : Array Value} {start : Nat}
    (hv : FilledFrom (s.contents store) start values) (h : s.heldWith store values p = some v) :
    s.Carries made v (.filledFrom store start p) := by
  obtain ⟨i, rfl, hi⟩ | ⟨hne, hp⟩ := heldWith_cases h
  · have hi := hv i v hi
    rw [Source.filledFrom]
    split at hi
    · next he => rwa [if_pos ⟨rfl, he⟩]
    · next he => rwa [if_neg fun hs => he hs.2]
  · rcases p with r | ⟨other, i⟩
    · exact hp
    · rwa [Source.filledFrom, if_neg fun hs => hne i (by rw [hs.1])]

theorem carries_copied {original : Store}
    (h : s.heldWith store (s.contents original) p = some v) :
    s.Carries made v (.copied original store p) := by
  obtain ⟨i, rfl, hi⟩ | ⟨hne, hp⟩ := heldWith_cases h
  · rwa [Source.copied, if_pos rfl]
  · rcases p with r | ⟨other, i⟩
    · exact hp
    · rwa [Source.copied, if_neg fun hs => hne i (by rw [hs])]

theorem carries_kept {source : Source} (hw : s.Carries made w source)
    (hu : ∀ v, u.held p = some v → s.held p = some v) (h : (u.keep into w).held p = some v) :
    s.Carries made v (.kept into source p) := by
  obtain ⟨name, rfl, rfl, rfl⟩ | ⟨hne, hp⟩ := held_keep_cases h
  · rwa [Source.kept, Source.put, if_pos rfl]
  · cases into with
    | none => exact hu v hp
    | some name =>
      rw [Source.kept, Source.put, if_neg (hne name rfl)]
      exact hu v hp

theorem evaluate_eq_ok {operand : Operand} (h : s.evaluate operand = .ok (w, u)) :
    ∃ next, u = { s with nextIdentity := next } ∧ s.nextIdentity ≤ next ∧
      (operand.source = .made → s.nextIdentity < next) ∧
      s.Carries operand.literal? w operand.source := by
  cases operand with
  | literal l =>
    obtain ⟨rfl, rfl⟩ := Prod.mk.inj (Except.ok.inj h)
    exact ⟨_, rfl, Nat.le_succ _, fun _ => Nat.lt_succ_self _, rfl⟩
  | register name =>
    cases hl : lookup s.registers name with
    | error e =>
      simp only [evaluate, hl] at h
      exact nomatch h
    | ok x =>
      simp only [evaluate, hl] at h
      obtain ⟨rfl, rfl⟩ := Prod.mk.inj (Except.ok.inj h)
      exact ⟨_, rfl, Nat.le_refl _, nofun, lookup_eq_ok hl⟩

theorem follows_stay (hh : ∀ p v, t.held p = some v → s.held p = some v)
    (hn : s.nextIdentity ≤ t.nextIdentity) : Follows s made .place t :=
  ⟨hh, hn, nofun⟩

theorem follows_same (hh : t.held = s.held) (hn : t.nextIdentity = s.nextIdentity) :
    Follows s made .place t :=
  follows_stay (fun _ _ hv => hh ▸ hv) (Nat.le_of_eq hn.symm)

theorem follows_move {flow : Place → Source}
    (hc : ∀ p v, t.held p = some v → s.Carries made v (flow p)) (hm : ∀ p, flow p ≠ .made)
    (hn : t.nextIdentity = s.nextIdentity) : Follows s made flow t :=
  ⟨hc, Nat.le_of_eq hn.symm, fun p hp => absurd hp (hm p)⟩

theorem follows_lose {values : Array Value} (ht : t.held = s.heldWith store values)
    (hv : ∀ (i : Nat) v, values[i]? = some v → (s.contents store)[i]? = some v)
    (hn : s.nextIdentity ≤ t.nextIdentity) : Follows s made .place t := by
  apply follows_stay _ hn
  intro p v h
  rw [ht] at h
  obtain ⟨i, rfl, hi⟩ | ⟨-, hp⟩ := heldWith_cases h
  · exact hv i v hi
  · exact hp

theorem follows_fill {values : Array Value} {start : Nat} (ht : t.held = s.heldWith store values)
    (hv : FilledFrom (s.contents store) start values)
    (hn : t.nextIdentity = s.nextIdentity) : Follows s made (.filledFrom store start) t := by
  apply follows_move _ (filledFrom_ne_made store start) hn
  intro p v h
  exact carries_filledFrom hv (ht ▸ h)

theorem follows_copy {original : Store} (ht : t.held = s.heldWith store (s.contents original))
    (hn : t.nextIdentity = s.nextIdentity) : Follows s made (.copied original store) t := by
  apply follows_move _ (copied_ne_made original store) hn
  intro p v h
  exact carries_copied (ht ▸ h)

theorem follows_push {source : Source} (hw : s.Carries made w source)
    (ht : t.held = s.heldWith store ((s.contents store).push w))
    (hn : s.nextIdentity ≤ t.nextIdentity)
    (hnew : source = .made → s.nextIdentity < t.nextIdentity) :
    Follows s made (.put (.slot store (s.contents store).size) source) t := by
  refine ⟨?_, hn, fun p hp => hnew (made_of_put hp)⟩
  intro p v h
  exact carries_put hw (fun i => Array.getElem?_push) (ht ▸ h)

theorem follows_keep {place : Place} (into : Option String) (hw : s.held place = some w)
    (hu : ∀ p v, u.held p = some v → s.held p = some v) (hn : u.nextIdentity = s.nextIdentity) :
    Follows s made (.kept into (.place place)) (u.keep into w) := by
  apply follows_move
  · intro p v h
    exact carries_kept hw (hu p) h
  · intro p hp
    exact nomatch made_of_kept hp
  · rw [nextIdentity_keep, hn]

end Session

theorem bind_eq_ok {ε α β : Type} {x : Except ε α} {f : α → Except ε β} {b : β}
    (h : x >>= f = .ok b) : ∃ a, x = .ok a ∧ f a = .ok b := by
  cases x with
  | error e => exact nomatch h
  | ok a => exact ⟨a, rfl, h⟩

namespace Slots

variable {a : Slots} {index : Nat} {v : Value}

theorem push_adds (a : Slots) (v : Value) :
    ((a.push v).answer = .ok a.size ∧ (a.push v).state.values = a.values.push v) ∨
      ∃ fault, a.push v = .refuse a fault := by
  rcases a.push_cases v with ⟨_, hp⟩ | ⟨capacity, _, _, hp⟩ | ⟨requested, _, hp⟩
  · rw [hp]
    exact .inl ⟨rfl, rfl⟩
  · rw [hp]
    exact .inl ⟨rfl, rfl⟩
  · exact .inr ⟨_, hp⟩

theorem values_of_get (h : a.get index = .ok v) : a.values[index]? = some v := by
  unfold get at h
  split at h
  · next hv => rw [hv, Except.ok.inj h]
  · exact nomatch h

theorem values_of_peek (h : a.peek = .ok v) : a.values[a.values.size - 1]? = some v := by
  rw [← Array.back?_eq_getElem?]
  unfold peek at h
  split at h
  · next hv => rw [hv, Except.ok.inj h]
  · exact nomatch h

theorem set_replaces {previous : Value} (h : a.get index = .ok previous) (v : Value) :
    (a.set index v).answer = .ok previous ∧
      ∀ i : Nat, (a.set index v).state.values[i]? = if i = index then some v else a.values[i]? := by
  have hlt : index < a.values.size := (Array.getElem?_eq_some_iff.1 (values_of_get h)).1
  simp only [set, h, Array.getElem?_setIfInBounds, if_pos hlt, true_and]
  intro i
  exact if_congr eq_comm rfl rfl

theorem values_of_pop {i : Nat} (h : a.pop.state.values[i]? = some v) : a.values[i]? = some v := by
  unfold pop at h
  split at h
  · exact h
  · rw [Array.getElem?_pop] at h
    split at h
    · exact h
    · exact nomatch h

end Slots

namespace FilledFrom

theorem refl (values : Array Value) : FilledFrom values values.size values := by
  intro i v h
  have hlt : i < values.size := (Array.getElem?_eq_some_iff.1 h).1
  rwa [if_neg (Nat.not_le.2 hlt)]

theorem zeroed (old : Array Value) (count : Nat) :
    FilledFrom old 0 (Array.replicate count .zeroed) := by
  intro i v h
  rw [Array.getElem?_replicate] at h
  rw [if_pos (Nat.zero_le i)]
  split at h
  · rw [← Option.some.inj h]
    rfl
  · exact nomatch h

theorem of_push {old values : Array Value} {n : Int64}
    (h : FilledFrom (old.push (.int n)) (old.size + 1) values) :
    FilledFrom old old.size values := by
  intro i v hv
  have hi := h i v hv
  rw [Array.getElem?_push] at hi
  rcases Nat.lt_trichotomy i old.size with hlt | heq | hgt
  · rw [if_neg (by omega), if_neg (by omega)] at hi
    rwa [if_neg (by omega)]
  · rw [if_neg (by omega), if_pos heq] at hi
    rw [if_pos (by omega), ← Option.some.inj hi]
    rfl
  · rw [if_pos (by omega)] at hi
    rwa [if_pos (by omega)]

end FilledFrom

theorem ArrayCommand.Progress.filledFrom_pushInts (p : Progress) (n : Int64) (count : Nat) :
    FilledFrom p.slots.values p.slots.values.size (p.pushInts n count).1.slots.values := by
  induction count generalizing p n with
  | zero => exact .refl _
  | succ count ih =>
    rw [pushInts]
    rcases p.slots.push_adds (.int n) with ⟨ha, hv⟩ | ⟨fault, hp⟩
    · have hrest := ih (p.advance (p.slots.push (.int n))) (n + 1)
      simp only [advance, hv, Array.size_push] at hrest
      simp only [ha]
      exact hrest.of_push
    · simp only [hp]
      exact .refl _

theorem PoolCommand.Progress.filledFrom_addInts (p : Progress) (n : Int64) (count : Nat) :
    FilledFrom p.pool.constants.values p.pool.constants.values.size
      (p.addInts n count).1.pool.constants.values := by
  induction count generalizing p n with
  | zero => exact .refl _
  | succ count ih =>
    rw [addInts]
    rcases p.pool.add_cases (.int n) with ⟨_, ha, hv⟩ | ⟨fault, hp⟩
    · have hrest := ih (p.advance (p.pool.add (.int n))) (n + 1)
      simp only [advance, hv, Array.size_push] at hrest
      simp only [ha]
      exact hrest.of_push
    · simp only [hp]
      exact .refl _

namespace Session

variable {s : Session} {name : String} {reply : Reply} {made : Option Literal}
  {into : Option String}

theorem register_follows {command : RegisterCommand} (h : command.run s = .ok reply) :
    Follows s (Command.register command).construction?
      (reply.flow (s.moves (.register command))) reply.session := by
  cases command with
  | bind name operand =>
    obtain ⟨⟨w, u⟩, he, h⟩ := bind_eq_ok h
    obtain ⟨next, rfl, haged, hnew, hw⟩ := evaluate_eq_ok he
    cases h
    refine ⟨?_, haged, fun p hp => hnew (made_of_put hp)⟩
    intro p v hv
    exact carries_kept (u := { s with nextIdentity := next }) hw (fun _ hv => hv) hv
  | unbind name =>
    obtain ⟨w, _, h⟩ := bind_eq_ok h
    cases h
    exact follows_stay (fun _ _ => held_of_erased_register) (Nat.le_refl _)
  | read name =>
    obtain ⟨w, _, h⟩ := bind_eq_ok h
    cases h
    exact follows_same rfl rfl
  | sameRef a b =>
    obtain ⟨⟨v, u⟩, hv, h⟩ := bind_eq_ok h
    obtain ⟨first, rfl, haged, _⟩ := evaluate_eq_ok hv
    obtain ⟨⟨w, u⟩, hw, h⟩ := bind_eq_ok h
    obtain ⟨next, rfl, haged', _⟩ := evaluate_eq_ok hw
    cases h
    exact follows_stay (fun _ _ hv => hv) (Nat.le_trans haged haged')

theorem array_push_follows {operand : Operand}
    (h : ArrayCommand.run s name (.push operand) = .ok reply) :
    Follows s operand.literal? (reply.flow (s.moves (.array name (.push operand))))
      reply.session := by
  obtain ⟨⟨w, u⟩, he, h⟩ := bind_eq_ok h
  obtain ⟨next, rfl, haged, hnew, hw⟩ := evaluate_eq_ok he
  obtain ⟨a, ha, h⟩ := bind_eq_ok h
  cases h
  have hc : s.contents (.array name) = a.values := contents_of_array ha
  have ht : ({ s with nextIdentity := next }.bindArray name (a.push w).state).held =
      s.heldWith (.array name) (a.push w).state.values := held_bindArray _ name _
  rcases a.push_adds w with ⟨hans, hv⟩ | ⟨fault, hp⟩
  · simp only [settle, hans]
    rw [hv, ← hc] at ht
    exact follows_push hw ht haged hnew
  · rw [hp] at ht ⊢
    apply follows_lose ht _ haged
    rw [hc]
    exact fun _ _ hv => hv

theorem array_set_follows {index : Nat} {operand : Operand}
    (h : ArrayCommand.run s name (.set index operand into) = .ok reply) :
    Follows s operand.literal? (reply.flow (s.moves (.array name (.set index operand into))))
      reply.session := by
  obtain ⟨⟨w, u⟩, he, h⟩ := bind_eq_ok h
  obtain ⟨next, rfl, haged, hnew, hw⟩ := evaluate_eq_ok he
  obtain ⟨a, ha, h⟩ := bind_eq_ok h
  cases h
  have hc : s.contents (.array name) = a.values := contents_of_array ha
  have ht : ({ s with nextIdentity := next }.bindArray name (a.set index w).state).held =
      s.heldWith (.array name) (a.set index w).state.values := held_bindArray _ name _
  cases hg : a.get index with
  | ok previous =>
    obtain ⟨hans, hv⟩ := Slots.set_replaces hg w
    rw [← hc] at hv
    have hput (p : Place) (v : Value)
        (h : ({ s with nextIdentity := next }.bindArray name (a.set index w).state).held p =
          some v) :
        s.Carries operand.literal? v (.put (.slot (.array name) index) operand.source p) :=
      carries_put hw hv (ht ▸ h)
    simp only [settle, hans]
    refine ⟨?_, ?_, ?_⟩
    · intro p v h
      simp only [Reply.flow, moves]
      split
      -- the slot that is written is no register, so it holds what was put there
      · next hp =>
        subst hp
        obtain ⟨_, _, hr, _⟩ | ⟨_, hu⟩ := held_keep_cases h
        · exact nomatch hr
        · have hwritten := hput _ v hu
          rwa [Source.put, if_pos rfl] at hwritten
      -- anywhere else is only the register that gets what the slot held before
      · next hp =>
        refine carries_kept ?_ ?_ h
        · rw [Carries, held, hc]
          exact Slots.values_of_get hg
        · intro v hu
          have hsame := hput p v hu
          rwa [Source.put, if_neg hp] at hsame
    · rwa [nextIdentity_keep]
    · intro p hp
      rw [nextIdentity_keep]
      apply hnew
      simp only [Reply.flow, moves] at hp
      split at hp
      · exact hp
      · exact nomatch made_of_kept hp
  | error fault =>
    have hsame : a.set index w = .refuse a fault := by
      rw [Slots.set, hg]
    rw [hsame] at ht ⊢
    apply follows_lose ht _ haged
    rw [hc]
    exact fun _ _ hv => hv

theorem array_pop_follows (h : ArrayCommand.run s name (.pop into) = .ok reply) :
    Follows s made (reply.flow (s.moves (.array name (.pop into)))) reply.session := by
  obtain ⟨a, ha, h⟩ := bind_eq_ok h
  cases h
  have hc : s.contents (.array name) = a.values := contents_of_array ha
  have ht := held_bindArray s name a.pop.state
  have hlost : Follows s made .place (s.bindArray name a.pop.state) := by
    apply follows_lose ht _ (Nat.le_refl _)
    rw [hc]
    exact fun _ _ => Slots.values_of_pop
  cases hk : a.peek with
  | ok w =>
    have hans : a.pop.answer = .ok w := by
      rw [Slots.pop, hk]
    simp only [settle, hans]
    apply follows_keep into _ hlost.carried rfl
    rw [held, hc]
    exact Slots.values_of_peek hk
  | error fault =>
    have hans : a.pop.answer = .error fault := by
      rw [Slots.pop, hk]
      rfl
    simp only [settle, hans]
    exact hlost

theorem shown_follows {read : Except Fault Value} {place : Place}
    (h : (match read with
      | .error fault => pure (s.refuse fault)
      | .ok w => pure ((s.keep into w).reply (.value w))) = (.ok reply : Except Rejection Reply))
    (hw : ∀ w, read = .ok w → s.held place = some w) :
    Follows s made (reply.flow (.kept into (.place place))) reply.session := by
  cases read with
  | error fault =>
    cases h
    exact follows_same rfl rfl
  | ok w =>
    cases h
    exact follows_keep into (hw w rfl) (fun _ _ hv => hv) rfl

theorem array_follows {command : ArrayCommand} (h : command.run s name = .ok reply) :
    Follows s (Command.array name command).construction?
      (reply.flow (s.moves (.array name command))) reply.session := by
  cases command with
  | push operand => exact array_push_follows h
  | set index operand into => exact array_set_follows h
  | pop into => exact array_pop_follows h
  | new config =>
    cases h
    exact follows_lose (held_bindArray s name _) (fun _ _ hv => nomatch hv) (Nat.le_refl _)
  | create count capacity config =>
    cases hm : Slots.create count capacity config with
    | error fault =>
      simp only [ArrayCommand.run, hm] at h
      cases h
      exact follows_same rfl rfl
    | ok made =>
      simp only [ArrayCommand.run, hm] at h
      cases h
      obtain ⟨_, _, _, rfl⟩ := Slots.create_eq_ok.1 hm
      exact follows_fill (held_bindArray s name _) (.zeroed _ count) rfl
  | pushInts first count =>
    obtain ⟨a, ha, h⟩ := bind_eq_ok h
    cases h
    refine follows_fill (held_bindArray s name _) ?_ rfl
    rw [contents_of_array ha]
    exact (ArrayCommand.Progress.start a).filledFrom_pushInts first count
  | get index into =>
    obtain ⟨a, ha, h⟩ := bind_eq_ok h
    refine shown_follows h fun w hw => ?_
    rw [held, contents_of_array ha]
    exact Slots.values_of_get hw
  | peek into =>
    obtain ⟨a, ha, h⟩ := bind_eq_ok h
    refine shown_follows h fun w hw => ?_
    rw [held, contents_of_array ha]
    exact Slots.values_of_peek hw
  | clear =>
    obtain ⟨a, _, h⟩ := bind_eq_ok h
    cases h
    exact follows_lose (held_bindArray s name _) (fun _ _ hv => nomatch hv) (Nat.le_refl _)
  | read =>
    obtain ⟨a, _, h⟩ := bind_eq_ok h
    cases h
    exact follows_same rfl rfl
  | sameCounters other =>
    obtain ⟨a, _, h⟩ := bind_eq_ok h
    obtain ⟨b, _, h⟩ := bind_eq_ok h
    cases h
    exact follows_same rfl rfl
  | copy under =>
    obtain ⟨a, ha, h⟩ := bind_eq_ok h
    cases h
    refine follows_copy ?_ rfl
    rw [contents_of_array ha]
    exact held_bindArray s under a.copy
  | dispose =>
    obtain ⟨a, _, h⟩ := bind_eq_ok h
    cases h
    exact follows_stay (fun _ _ => held_of_erased_array) (Nat.le_refl _)

theorem pool_add_follows {operand : Operand}
    (h : PoolCommand.run s name (.add operand) = .ok reply) :
    Follows s operand.literal? (reply.flow (s.moves (.pool name (.add operand))))
      reply.session := by
  obtain ⟨⟨w, u⟩, he, h⟩ := bind_eq_ok h
  obtain ⟨next, rfl, haged, hnew, hw⟩ := evaluate_eq_ok he
  obtain ⟨pool, hl, h⟩ := bind_eq_ok h
  cases h
  have hc : s.contents (.pool name) = pool.constants.values := contents_of_pool hl
  have ht : ({ s with nextIdentity := next }.bindPool name (pool.add w).state).held =
      s.heldWith (.pool name) (pool.add w).state.constants.values := held_bindPool _ name _
  rcases pool.add_cases w with ⟨_, hans, hv⟩ | ⟨fault, hp⟩
  · simp only [settle, hans]
    rw [hv, ← hc] at ht
    exact follows_push hw ht haged hnew
  · rw [hp] at ht ⊢
    apply follows_lose ht _ haged
    rw [hc]
    exact fun _ _ hv => hv

theorem pool_follows {command : PoolCommand} (h : command.run s name = .ok reply) :
    Follows s (Command.pool name command).construction?
      (reply.flow (s.moves (.pool name command))) reply.session := by
  cases command with
  | new config =>
    cases h
    exact follows_lose (held_bindPool s name _) (fun _ _ hv => nomatch hv) (Nat.le_refl _)
  | add operand => exact pool_add_follows h
  | addInts first count =>
    obtain ⟨pool, hl, h⟩ := bind_eq_ok h
    cases h
    refine follows_fill (held_bindPool s name _) ?_ rfl
    rw [contents_of_pool hl]
    exact (PoolCommand.Progress.start pool).filledFrom_addInts first count
  | get index into =>
    obtain ⟨pool, hl, h⟩ := bind_eq_ok h
    refine shown_follows h fun w hw => ?_
    rw [held, contents_of_pool hl]
    exact Slots.values_of_get hw
  | read =>
    obtain ⟨pool, _, h⟩ := bind_eq_ok h
    cases h
    exact follows_same rfl rfl
  | copyConstants under =>
    obtain ⟨pool, hl, h⟩ := bind_eq_ok h
    cases h
    refine follows_copy ?_ rfl
    rw [contents_of_pool hl]
    exact held_bindArray s under pool.constants.copy
  | copy under =>
    obtain ⟨pool, hl, h⟩ := bind_eq_ok h
    cases h
    refine follows_copy ?_ rfl
    rw [contents_of_pool hl]
    exact held_bindPool s under pool.copy

theorem allocated_follows {α : Type} {l : Literal} {wrap : Handle α → Value} {target : α}
    {o : Outcome Heap (Handle α)}
    (ho : o.answer = .ok ⟨s.nextIdentity, target⟩ ∨ ∃ fault, o.answer = .error fault)
    (hl : wrap ⟨s.nextIdentity, target⟩ = l.make s.nextIdentity) :
    Follows s (some l) ((HeapCommand.allocated s name into wrap o).flow (.kept into .made))
      (HeapCommand.allocated s name into wrap o).session := by
  rcases ho with ho | ⟨fault, ho⟩
  · simp only [HeapCommand.allocated, settle, ho]
    refine ⟨?_, ?_, ?_⟩
    · intro p v h
      refine carries_kept ?_ ?_ h
      · exact congrArg some hl.symm
      · exact fun _ hv => hv
    · rw [nextIdentity_keep]
      exact Nat.le_succ _
    · intro p _
      rw [nextIdentity_keep]
      exact Nat.lt_succ_self _
  · simp only [HeapCommand.allocated, settle, ho]
    exact follows_same rfl rfl

theorem freed_follows (o : Outcome Heap Bool) :
    Follows s made ((HeapCommand.freed s name o).flow .place)
      (HeapCommand.freed s name o).session := by
  cases ho : o.answer <;>
    · simp only [HeapCommand.freed, settle, ho]
      exact follows_same rfl rfl

theorem heap_follows {command : HeapCommand} (h : command.run s name = .ok reply) :
    Follows s (Command.heap name command).construction?
      (reply.flow (s.moves (.heap name command))) reply.session := by
  cases command with
  | new limit trace =>
    cases h
    exact follows_same rfl rfl
  | copy under =>
    obtain ⟨heap, _, h⟩ := bind_eq_ok h
    cases h
    exact follows_same rfl rfl
  | allocString contents into =>
    obtain ⟨heap, _, h⟩ := bind_eq_ok h
    cases h
    exact allocated_follows (heap.allocate_answer _ _ _ _) rfl
  | allocObject contents into =>
    obtain ⟨heap, _, h⟩ := bind_eq_ok h
    cases h
    exact allocated_follows (heap.allocate_answer _ _ _ _) rfl
  | free register =>
    obtain ⟨w, _, h⟩ := bind_eq_ok h
    obtain ⟨heap, _, h⟩ := bind_eq_ok h
    cases w with
    | str handle =>
      cases h
      exact freed_follows _
    | obj handle =>
      cases h
      exact freed_follows _
    | bool | int | double => exact nomatch h

theorem step_follows {c : Command} (h : s.step c = .ok reply) :
    Follows s c.construction? (reply.flow (s.moves c)) reply.session := by
  cases c with
  | register command => exact register_follows h
  | array name command => exact array_follows h
  | pool name command => exact pool_follows h
  | heap name command => exact heap_follows h

theorem after_follows (s : Session) (c : Command) :
    Follows s c.construction? (s.flow c) (s.after c) := by
  unfold flow after
  cases h : s.step c with
  | ok reply => exact step_follows h
  | error rejection => exact follows_same rfl rfl

end Session

end ValueStorage
