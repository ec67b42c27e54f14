import ValueStorage.Heap
import ValueStorage.Proofs.WellFormedText
import ValueStorage.Value.Render

/-! The views of a string value: its bytes, its text if the bytes are text, and the text that is
displayed in any case. Where the bytes are text all three agree; where they are not, the displayed
text shows it. -/

namespace ValueStorage

inductive StringOf (bytes : List UInt8) : Value → Prop
  | literal (identity : Nat) : StringOf bytes ((Literal.str (.ofBytes bytes)).make identity)
  | handle {heap : Heap} {identity : Nat} {s : Handle StringObject}
      (h : (heap.allocString identity (.ofBytes bytes)).answer = .ok s) : StringOf bytes (.str s)
  | value {heap : Heap} {identity : Nat} {v : Value}
      (h : (heap.allocStringValue identity (.ofBytes bytes)).answer = .ok v) : StringOf bytes v

variable {bytes : List UInt8} {v : Value}

theorem StringOf.eq_str (h : StringOf bytes v) : ∃ identity, v = .str ⟨identity, .ofBytes bytes⟩ := by
  cases h with
  | literal identity => exact ⟨identity, rfl⟩
  | @handle heap identity s h =>
    refine ⟨identity, ?_⟩
    rcases heap.allocate_answer .string identity _ (StringObject.ofBytes bytes) with ha | ⟨fault, ha⟩
    · rw [Except.ok.inj (h.symm.trans ha)]
    · exact nomatch h.symm.trans ha
  | @value heap identity v h =>
    refine ⟨identity, ?_⟩
    rcases heap.allocate_answer .string identity _ (StringObject.ofBytes bytes) with ha | ⟨fault, ha⟩
    · have hmade : (heap.allocStringValue identity (.ofBytes bytes)).answer =
          .ok (.str ⟨identity, .ofBytes bytes⟩) := congrArg (Except.map Value.str) ha
      exact Except.ok.inj (h.symm.trans hmade)
    · have hmade : (heap.allocStringValue identity (.ofBytes bytes)).answer = .error fault :=
        congrArg (Except.map Value.str) ha
      exact nomatch h.symm.trans hmade

namespace Value

variable {s : Handle StringObject}

theorem display_of_no_text (h : (str s).asText? = none) :
    Utf8.replacement ∈ (str s).display.toList ∧ Utf8.encode (str s).display ≠ s.target.bytes := by
  refine ⟨Utf8.replacement_mem_decodeLossy h, fun he => ?_⟩
  have ht : (str s).asText? = some (str s).display := Utf8.decode?_eq_some.2 he
  exact nomatch h.symm.trans ht

theorem displayBytes_of_ne_str (h : v.tag ≠ .str) : v.displayBytes = Utf8.encode v.display := by
  cases v with
  | str s => exact absurd rfl h
  | bool _ | int _ | double _ | obj _ => rfl

end Value

/-- A string value holds exactly the bytes it was made of. It has a text if they are well-formed, and
then they encode it and it is displayed. Otherwise the displayed text has a replacement character in
it and is not what the bytes encode. Values of other tags have no bytes but those of their displayed
text. Displaying the string of a displayed text changes nothing more. -/
theorem views_agree :
    (∀ bytes v, StringOf bytes v →
      v.asBytes? = some bytes ∧ v.displayBytes = bytes ∧
      (∃ s, v.asString? = some s ∧ s.length = bytes.length ∧ s.size = bytes.length) ∧
      ((∃ text, v.asText? = some text) ↔ Utf8.WellFormed bytes) ∧
      (∀ text, v.asText? = some text → Utf8.encode text = bytes ∧ v.display = text) ∧
      (v.asText? = none →
        '\uFFFD' ∈ v.display.toList ∧ Utf8.encode v.display ≠ bytes)) ∧
    (∀ v : Value, v.tag ≠ .str → v.displayBytes = Utf8.encode v.display) ∧
    ∀ (v : Value) identity,
      let again := (Literal.str (.ofText v.display)).make identity
      again.display = v.display ∧ again.asText? = some v.display := by
  refine ⟨fun bytes v h => ?_, fun v => Value.displayBytes_of_ne_str, fun v identity => ?_⟩
  · obtain ⟨identity, rfl⟩ := h.eq_str
    refine ⟨rfl, rfl, ⟨.ofBytes bytes, rfl, rfl, rfl⟩, Utf8.exists_decode?, fun text ht => ?_,
      Value.display_of_no_text⟩
    have he : Utf8.encode text = bytes := Utf8.decode?_eq_some.1 ht
    refine ⟨he, ?_⟩
    change Utf8.decodeLossy bytes = text
    rw [← he, Utf8.decodeLossy_encode]
  · exact ⟨Utf8.decodeLossy_encode v.display, Utf8.decode?_encode v.display⟩

theorem views_agree_surrogate :
    let bytes : List UInt8 := [0x61, 0xED, 0xA0, 0x80, 0x62]
    let v : Value := .str ⟨7, .ofBytes bytes⟩
    let text : List UInt8 := [0xC3, 0xA9, 0xE2, 0x82, 0xAC]
    let w : Value := .str ⟨8, .ofBytes text⟩
    (({ limit := some 5 } : Heap).allocStringValue 7 (.ofBytes bytes)).answer = .ok v ∧
      StringOf bytes v ∧ v.displayBytes = bytes ∧ v.asText? = none ∧ ¬ Utf8.WellFormed bytes ∧
      '\uFFFD' ∈ v.display.toList ∧ Utf8.encode v.display ≠ bytes ∧
      StringOf text w ∧ w.asText? = some "é€" ∧ w.display = "é€" ∧
      (Value.double ⟨0⟩).tag ≠ .str ∧
      (Value.double ⟨0⟩).displayBytes = Utf8.encode (Value.double ⟨0⟩).display := by
  intro bytes v text w
  have hmade : (({ limit := some 5 } : Heap).allocStringValue 7 (.ofBytes bytes)).answer = .ok v := rfl
  obtain ⟨hstring, hother, _⟩ := views_agree
  obtain ⟨_, hbytes, _, hwell, _, hnone⟩ := hstring bytes v (.value hmade)
  obtain ⟨_, _, _, _, htext, _⟩ := hstring text w (.literal 8)
  have hv : v.asText? = none := by decide
  have hw : w.asText? = some "é€" := by decide
  have hill : ¬ Utf8.WellFormed bytes := by
    rw [← hwell, hv]
    exact nofun
  exact ⟨hmade, .value hmade, hbytes, hv, hill, (hnone hv).1, (hnone hv).2, .literal 8, hw,
    (htext _ hw).2, by decide, hother _ (by decide)⟩

end ValueStorage
