import Mathlib.Data.List.Forall2
import ValueStorage.Pool
import ValueStorage.Proofs.ValueCharacters

/-! What the dump of an array tells. It depends on the display texts of the values alone. Where none of
them is a string, no comma stands in a display text, and the dump is parted again into the very texts
that it was joined from. -/

namespace ValueStorage

namespace Dump

def parts : List Char → List (List Char)
  | [] => [[]]
  | ',' :: ' ' :: rest => [] :: parts rest
  | c :: rest => (parts rest).modifyHead (c :: ·)

/-- The parts of what stands between the brackets. Nothing between them has no parts. -/
def read (text : String) : List String :=
  let inside := text.toList.tail.dropLast
  if inside = [] then [] else (parts inside).map String.ofList

def readInts? (text : String) : Option (List Int64) :=
  (read text).mapM fun part => (Decimal.intOf? part.toList).map Int64.ofInt

variable {entry rest : List Char} {entries : List (List Char)}

theorem parts_cons {c : Char} (hc : c ≠ ',') :
    parts (c :: rest) = (parts rest).modifyHead (c :: ·) := by
  rw [parts]
  rintro _ rfl
  exact absurd rfl hc

theorem parts_of_no_comma (h : ',' ∉ entry) : parts entry = [entry] := by
  induction entry with
  | nil => rfl
  | cons c entry ih =>
    obtain ⟨hc, hentry⟩ := not_or.1 (mt List.mem_cons.2 h)
    rw [parts_cons (Ne.symm hc), ih hentry]
    rfl

theorem parts_append (h : ',' ∉ entry) :
    parts (entry ++ ',' :: ' ' :: rest) = entry :: parts rest := by
  induction entry with
  | nil => rw [List.nil_append, parts]
  | cons c entry ih =>
    obtain ⟨hc, hentry⟩ := not_or.1 (mt List.mem_cons.2 h)
    rw [List.cons_append, parts_cons (Ne.symm hc), ih hentry]
    rfl

theorem parts_intercalate (hne : entries ≠ []) (h : ∀ entry ∈ entries, ',' ∉ entry) :
    parts ([',', ' '].intercalate entries) = entries := by
  induction entries with
  | nil => exact absurd rfl hne
  | cons entry entries ih =>
    have hentry : ',' ∉ entry := h entry (List.mem_cons_self ..)
    cases entries with
    | nil => rw [List.intercalate_singleton, parts_of_no_comma hentry]
    | cons next entries =>
      rw [List.intercalate_cons_cons, List.append_assoc]
      change parts (entry ++ ',' :: ' ' :: [',', ' '].intercalate (next :: entries)) = _
      rw [parts_append hentry, ih (List.cons_ne_nil _ _) fun e he => h e (List.mem_cons_of_mem _ he)]

theorem intercalate_ne_nil (hne : entries ≠ []) (h : ∀ entry ∈ entries, entry ≠ []) :
    [',', ' '].intercalate entries ≠ [] := by
  obtain ⟨entry, entries, rfl⟩ := List.exists_cons_of_ne_nil hne
  have hentry : entry ≠ [] := h entry (List.mem_cons_self ..)
  cases entries with
  | nil => rwa [List.intercalate_singleton]
  | cons next entries =>
    rw [List.intercalate_cons_cons, List.append_assoc]
    exact List.append_ne_nil_of_left_ne_nil hentry _

end Dump

namespace Value

variable {vs : List Value}

theorem toList_displayAll (vs : List Value) : (displayAll vs).toList =
    '[' :: ([',', ' '].intercalate (vs.map (·.display.toList)) ++ [']']) := by
  rw [displayAll, String.toList_append, String.toList_append, String.toList_intercalate,
    List.map_map]
  rfl

theorem read_displayAll (hv : ∀ v ∈ vs, v.tag ≠ .str) :
    Dump.read (displayAll vs) = vs.map display := by
  have hinside : (displayAll vs).toList.tail.dropLast =
      [',', ' '].intercalate (vs.map (·.display.toList)) := by
    rw [toList_displayAll, List.tail_cons, List.dropLast_concat]
  have htext : (vs.map (·.display.toList)).map String.ofList = vs.map display := by
    rw [List.map_map]
    exact List.map_congr_left fun v _ => String.ofList_toList
  rw [Dump.read, hinside]
  by_cases hempty : vs = []
  · rw [hempty]
    rfl
  · have hne : vs.map (·.display.toList) ≠ [] := mt List.map_eq_nil_iff.1 hempty
    have hshown : ∀ entry ∈ vs.map (·.display.toList), entry ≠ [] := by
      intro entry hentry
      obtain ⟨v, hmem, rfl⟩ := List.mem_map.1 hentry
      exact (display_characters (hv v hmem)).1
    have hcomma : ∀ entry ∈ vs.map (·.display.toList), ',' ∉ entry := by
      intro entry hentry hmem
      obtain ⟨v, hv', rfl⟩ := List.mem_map.1 hentry
      exact absurd ((display_characters (hv v hv')).2 ',' hmem) (by decide)
    rw [if_neg (Dump.intercalate_ne_nil hne hshown), Dump.parts_intercalate hne hcomma, htext]

theorem displayAll_eq_iff {us : List Value} (hu : ∀ v ∈ us, v.tag ≠ .str)
    (hv : ∀ v ∈ vs, v.tag ≠ .str) :
    displayAll us = displayAll vs ↔ List.Forall₂ (fun u v => u.display = v.display) us vs := by
  have hmap : List.Forall₂ (fun u v => u.display = v.display) us vs ↔
      us.map display = vs.map display := by
    rw [← List.forall₂_eq_eq_eq, List.forall₂_map_left_iff, List.forall₂_map_right_iff]
  rw [hmap]
  constructor
  · intro h
    rw [← read_displayAll hu, h, read_displayAll hv]
  · intro h
    rw [displayAll, h, displayAll]

theorem displayAll_eq_brackets_iff (hv : ∀ v ∈ vs, v.tag ≠ .str) :
    displayAll vs = "[]" ↔ vs = [] := by
  constructor
  · intro h
    have hread := read_displayAll hv
    rw [h] at hread
    exact List.map_eq_nil_iff.1 hread.symm
  · rintro rfl
    rfl

theorem readInts?_displayAll (ns : List Int64) :
    Dump.readInts? (displayAll (ns.map int)) = some ns := by
  have htags : ∀ v ∈ ns.map int, v.tag ≠ .str := by
    intro v hv
    obtain ⟨n, _, rfl⟩ := List.mem_map.1 hv
    exact nofun
  rw [Dump.readInts?, read_displayAll htags]
  clear htags
  induction ns with
  | nil => rfl
  | cons n ns ih =>
    have hint : (Decimal.intOf? (display (int n)).toList).map Int64.ofInt = some n := by
      change (Decimal.intOf? (toString n.toInt).toList).map Int64.ofInt = some n
      rw [Decimal.intOf?_toString, Option.map_some, Int64.ofInt_toInt]
    rw [List.map_cons, List.map_cons, List.mapM_cons, hint, ih]
    rfl

theorem utf8ByteSize_intercalate (texts : List String) : (", ".intercalate texts).utf8ByteSize =
    (texts.map String.utf8ByteSize).sum + 2 * (texts.length - 1) := by
  induction texts with
  | nil => rfl
  | cons text texts ih =>
    cases texts with
    | nil => simp
    | cons next texts =>
      have hseparator : ", ".utf8ByteSize = 2 := rfl
      rw [String.intercalate_cons_cons, String.utf8ByteSize_append, String.utf8ByteSize_append, ih,
        hseparator]
      simp only [List.map_cons, List.sum_cons, List.length_cons]
      omega

theorem length_encode_displayAll (vs : List Value) : (Utf8.encode (displayAll vs)).length =
    2 + (vs.map fun v => (Utf8.encode v.display).length).sum + 2 * (vs.length - 1) := by
  change (displayAll vs).utf8ByteSize =
    2 + (vs.map (String.utf8ByteSize ∘ display)).sum + 2 * (vs.length - 1)
  have hopening : "[".utf8ByteSize = 1 := rfl
  have hclosing : "]".utf8ByteSize = 1 := rfl
  rw [displayAll, String.utf8ByteSize_append, String.utf8ByteSize_append, hopening, hclosing,
    utf8ByteSize_intercalate, List.map_map, List.length_map]
  omega

end Value

/-- An array or a pool is dumped as the display texts of its values in brackets, joined by commas and
spaces, whatever else there is to it; the dump has as many bytes as the texts, the separators and the
brackets together. If no value is a string the dump is parted again into the texts, so that arrays
are dumped alike exactly if their values are displayed alike, and only an empty one as a pair of
brackets. The numbers of an array of whole numbers are read back. -/
theorem dumps_part_again :
    (∀ s : Slots, s.dump.toList =
        '[' :: ([',', ' '].intercalate (s.values.toList.map (·.display.toList)) ++ [']']) ∧
      (Utf8.encode s.dump).length =
        2 + (s.values.toList.map fun v => (Utf8.encode v.display).length).sum + 2 * (s.size - 1)) ∧
    (∀ p : Pool, p.dump = p.constants.dump) ∧
    (∀ s t : Slots, s.values.toList.map Value.display = t.values.toList.map Value.display →
      s.dump = t.dump) ∧
    (∀ s : Slots, (∀ v ∈ s.values.toList, v.tag ≠ .str) →
      Dump.read s.dump = s.values.toList.map Value.display ∧ (s.dump = "[]" ↔ s.isEmpty)) ∧
    (∀ s t : Slots, (∀ v ∈ s.values.toList, v.tag ≠ .str) → (∀ v ∈ t.values.toList, v.tag ≠ .str) →
      (s.dump = t.dump ↔ s.size = t.size ∧
        List.Forall₂ (fun u v => u.display = v.display) s.values.toList t.values.toList)) ∧
    ∀ (s : Slots) (ns : List Int64), s.values.toList = ns.map .int →
      Dump.readInts? s.dump = some ns := by
  refine ⟨fun s => ⟨Value.toList_displayAll _, ?_⟩, fun p => rfl, ?_, ?_, ?_, ?_⟩
  · rw [s.size_eq_length]
    exact Value.length_encode_displayAll _
  · intro s t h
    rw [Slots.dump, Value.displayAll, h, Slots.dump, Value.displayAll]
  · intro s hs
    refine ⟨Value.read_displayAll hs, ?_⟩
    rw [Slots.dump, Value.displayAll_eq_brackets_iff hs]
    simp [Slots.isEmpty]
  · intro s t hs ht
    rw [Slots.dump, Slots.dump, Value.displayAll_eq_iff hs ht]
    refine ⟨fun h => ⟨?_, h⟩, And.right⟩
    rw [s.size_eq_length, t.size_eq_length, h.length_eq]
  · intro s ns h
    rw [Slots.dump, h]
    exact Value.readInts?_displayAll ns

theorem dumps_part_again_mixed :
    let vs : Array Value :=
      #[.bool true, .double ⟨0xFFF0000000000000⟩, .obj ⟨4, .string (.ofBytes [0x2C])⟩]
    let s : Slots := { values := vs, capacity := 8, config := {}, counters := ⟨1, 0⟩ }
    let t : Slots := { values := vs, capacity := 3, config := { growth := ⟨3, 1⟩ } }
    let ints : Slots := { values := #[.int (-5), .int 7], config := {} }
    let blank : Slots := { values := #[.str ⟨1, .ofBytes []⟩], config := {} }
    s.dump = t.dump ∧ s.dump = "[1, -inf, OBJECT]" ∧ (∀ v ∈ s.values.toList, v.tag ≠ .str) ∧
      Dump.read "[1, -inf, OBJECT]" = ["1", "-inf", "OBJECT"] ∧ s.dump ≠ "[]" ∧
      s.dump ≠ ints.dump ∧ Dump.readInts? ints.dump = some [-5, 7] ∧ blank.dump = "[]" := by
  intro vs s t ints blank
  obtain ⟨_, _, hcontents, hparts, hiff, hints⟩ := dumps_part_again
  have hs : ∀ v ∈ s.values.toList, v.tag ≠ .str := by decide
  have hi : ∀ v ∈ ints.values.toList, v.tag ≠ .str := by decide
  have htext : s.dump = "[1, -inf, OBJECT]" := by decide
  have hread : Dump.read s.dump = ["1", "-inf", "OBJECT"] := (hparts s hs).1
  have hempty : s.dump ≠ "[]" := fun h => absurd ((hparts s hs).2.1 h) (by decide)
  have hother : s.dump ≠ ints.dump := fun h => absurd ((hiff s ints hs hi).1 h).1 (by decide)
  exact ⟨hcontents s t rfl, htext, hs, htext ▸ hread, hempty, hother, hints ints [-5, 7] rfl,
    by decide⟩

end ValueStorage
