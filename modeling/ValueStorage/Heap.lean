import ValueStorage.Outcome
import ValueStorage.Word

/-!
Heaps that keep account of the objects made on them. A heap knows which objects are live by their
identities and how many bytes each was accounted with, and refuses an allocation that would take the
total beyond its limit. It does not hold the objects: freeing one ends its account, and whoever has
a reference can still read it.
-/
namespace ValueStorage

structure Block where
  identity : Nat
  bytes : Nat
deriving DecidableEq, Repr

structure Heap where
  limit : Option Nat := none
  allocated : Nat := 0
  live : List Block := []
  trace : Bool := false
deriving DecidableEq, Repr

namespace Heap

def objectCount (h : Heap) : Nat := h.live.length

def reported (h : Heap) (events : List TraceEvent) : List TraceEvent :=
  if h.trace then events else []

def block? (h : Heap) (identity : Nat) : Option Block := h.live.find? (·.identity == identity)

def reserve (h : Heap) (bytes : Nat) : Outcome Heap Unit :=
  let refusal := Fault.outOfMemory bytes "bytes" h.limit
  match Word.add? h.allocated bytes with
  | none => .refuse h refusal
  | some total =>
    if h.limit.any (· < total) then .refuse h refusal
    else ⟨{ h with allocated := total }, .ok (), []⟩

structure HasRoom (h : Heap) (bytes : Nat) : Prop where
  word : h.allocated + bytes ≤ Word.max
  limit (limit : Nat) (hl : h.limit = some limit) : h.allocated + bytes ≤ limit

theorem reserve_of_room {h : Heap} {bytes : Nat} (hr : h.HasRoom bytes) :
    h.reserve bytes = ⟨{ h with allocated := h.allocated + bytes }, .ok (), []⟩ := by
  have hw : Word.add? h.allocated bytes = some (h.allocated + bytes) :=
    Word.add?_eq_some.2 ⟨hr.word, rfl⟩
  have hl : ¬ h.limit.any (· < h.allocated + bytes) = true :=
    fun he => Word.any_lt_iff.1 he hr.limit
  simp only [reserve, hw]
  exact if_neg hl

theorem reserve_of_no_room {h : Heap} {bytes : Nat} (hr : ¬ h.HasRoom bytes) :
    h.reserve bytes = .refuse h (.outOfMemory bytes "bytes" h.limit) := by
  unfold reserve
  cases hw : Word.add? h.allocated bytes with
  | none => rfl
  | some total =>
    obtain ⟨hle, rfl⟩ := Word.add?_eq_some.1 hw
    exact if_pos (Word.any_lt_iff.2 fun hl => hr ⟨hle, hl⟩)

/-- Ends the account of an object and credits its bytes. An object that is not live has none. -/
def release (h : Heap) (identity : Nat) : Heap :=
  let kept := h.live.filter (·.identity != identity)
  { h with live := kept, allocated := h.allocated - ((h.block? identity).map (·.bytes)).getD 0 }

/-- Opens an account whose bytes are already in the total. An older account under the same identity
belongs to an object that is gone; it is ended. -/
def track (h : Heap) (identity bytes : Nat) : Heap :=
  let current := h.release identity
  { current with live := ⟨identity, bytes⟩ :: current.live }

def allocate {α : Type} (h : Heap) (kind : RefKind) (identity bytes : Nat) (target : α) :
    Outcome Heap (Handle α) :=
  (h.reserve bytes).andThen fun reserved _ =>
    ⟨reserved.track identity bytes, .ok ⟨identity, target⟩, h.reported [.allocate kind bytes]⟩

def allocString (h : Heap) (identity : Nat) (s : StringObject) : Outcome Heap (Handle StringObject) :=
  h.allocate .string identity s.size s

def allocStringValue (h : Heap) (identity : Nat) (s : StringObject) : Outcome Heap Value :=
  (h.allocString identity s).map .str

def allocObject (h : Heap) (identity : Nat) (o : Object) : Outcome Heap (Handle Object) :=
  h.allocate .object identity o.size o

def free {α : Type} (h : Heap) (kind : RefKind) (handle : Handle α) : Outcome Heap Bool :=
  match h.block? handle.identity with
  | some block =>
    ⟨h.release handle.identity, .ok true, h.reported [.free kind block.bytes]⟩
  | none => ⟨h, .ok false, h.reported [.freeIgnored kind]⟩

theorem release_of_not_live {h : Heap} {identity : Nat} (hn : h.block? identity = none) :
    h.release identity = h := by
  have apart : ∀ b ∈ h.live, (b.identity != identity) = true := by
    simpa [block?] using hn
  have kept : h.live.filter (·.identity != identity) = h.live := List.filter_eq_self.2 apart
  simp [release, hn, kept]

theorem free_state {α : Type} (h : Heap) (kind : RefKind) (handle : Handle α) :
    (h.free kind handle).state = h.release handle.identity := by
  unfold free
  split
  · rfl
  · next hn => exact (release_of_not_live hn).symm

theorem free_answer {α : Type} (h : Heap) (kind : RefKind) (handle : Handle α) :
    (h.free kind handle).answer = .ok (h.block? handle.identity).isSome := by
  unfold free
  split
  · next hs => rw [hs]; rfl
  · next hn => rw [hn]; rfl

theorem allocate_of_room {α : Type} {h : Heap} {identity bytes : Nat} (hr : h.HasRoom bytes)
    (hn : h.block? identity = none) (kind : RefKind) (target : α) :
    h.allocate kind identity bytes target =
      ⟨{ h with allocated := h.allocated + bytes, live := ⟨identity, bytes⟩ :: h.live },
        .ok ⟨identity, target⟩, h.reported [.allocate kind bytes]⟩ := by
  have hk : ({ h with allocated := h.allocated + bytes } : Heap).block? identity = none := hn
  simp only [allocate, reserve_of_room hr, Outcome.andThen, track, release_of_not_live hk,
    List.nil_append]

theorem allocate_of_no_room {α : Type} {h : Heap} {bytes : Nat} (hr : ¬ h.HasRoom bytes)
    (kind : RefKind) (identity : Nat) (target : α) :
    h.allocate kind identity bytes target = .refuse h (.outOfMemory bytes "bytes" h.limit) := by
  simp only [allocate, reserve_of_no_room hr, Outcome.andThen, Outcome.refuse]

theorem allocate_answer {α : Type} (h : Heap) (kind : RefKind) (identity bytes : Nat) (target : α) :
    (h.allocate kind identity bytes target).answer = .ok ⟨identity, target⟩ ∨
      ∃ fault, (h.allocate kind identity bytes target).answer = .error fault := by
  by_cases hr : h.HasRoom bytes
  · left
    simp only [allocate, reserve_of_room hr, Outcome.andThen]
  · right
    rw [allocate_of_no_room hr]
    exact ⟨_, rfl⟩

def freeString (h : Heap) (s : Handle StringObject) : Outcome Heap Bool := h.free .string s

def freeObject (h : Heap) (o : Handle Object) : Outcome Heap Bool := h.free .object o

end Heap

end ValueStorage
