import ValueStorage.Pool
import ValueStorage.Proofs.LegibleLayout
import ValueStorage.Proofs.ValueCharacters

/-! The two layouts of arrays and of pools carry the same text. The literal of a value is a word or is
quoted and holds no control, whatever its bytes are. So each value of an array stands on one line of
the spread layout, joining the lines gives the compact layout, and as either of them determines all
that it shows, two arrays agree in both layouts or in none. -/

namespace ValueStorage

open Layout

variable {c : Char} {w rest : List Char}

/-! Literals. -/

theorem IsWordCharacter.ne {d : Char} (h : IsWordCharacter c) (hd : ¬ IsWordCharacter d) : c ≠ d :=
  fun heq => hd (heq ▸ h)

theorem IsWordCharacter.not_isMark (h : IsWordCharacter c) : ¬ IsMark c := by
  intro hmark
  have hno : ∀ d ∈ [',', ':', '(', ')', '[', ']', '\x7b', '\x7d'], ¬ IsWordCharacter d :=
    List.all_iff_forall_prop.1 (by decide)
  exact hno c hmark h

theorem isWord_of_characters (h : ∀ c ∈ w, IsWordCharacter c) : IsWord w where
  plain c hc := ⟨(h c hc).not_isMark, (h c hc).ne (by decide), (h c hc).ne (by decide)⟩
  first hfirst := (h ' ' (List.mem_of_mem_head? hfirst)).ne (by decide) rfl
  last hlast := (h ' ' (List.mem_of_getLast? hlast)).ne (by decide) rfl

namespace Quoted

theorem behindQuote_plain (h : ∀ c ∈ w, c ≠ '"' ∧ c ≠ '\\') :
    behindQuote false (w ++ rest) = behindQuote false rest := by
  induction w with
  | nil => rfl
  | cons c w ih =>
    obtain ⟨hquote, hslash⟩ := h c (List.mem_cons_self ..)
    rw [List.cons_append, behindQuote, if_neg hquote, decide_eq_false hslash]
    exact ih fun d hd => h d (List.mem_cons_of_mem _ hd)

theorem Writes.behindQuote (h : Writes c w) :
    behindQuote false (w ++ rest) = behindQuote false rest := by
  cases h with
  | self hquote hslash => exact behindQuote_plain (by simp [hquote, hslash])
  | named => rfl
  | code =>
    have hinner : ∀ d ∈ '\x7b' :: (Nat.toDigits 16 c.toNat ++ ['\x7d']), d ≠ '"' ∧ d ≠ '\\' := by
      intro d hd
      rcases List.mem_cons.1 hd with rfl | hd
      · decide
      rcases List.mem_append.1 hd with hdigit | hclosing
      · have hword : IsWordCharacter d := isWordCharacter_of_mem_toDigits hdigit
        exact ⟨hword.ne (by decide), hword.ne (by decide)⟩
      · rw [List.mem_singleton.1 hclosing]
        decide
    rw [escapeCode, List.append_assoc, List.append_assoc, ← List.append_assoc (Nat.toDigits ..)]
    exact behindQuote_plain hinner

theorem isQuoted_quote (text : String) : IsQuoted (quote text).toList where
  unbroken h := not_isControl_of_mem_quote h (by decide)
  closed := by
    refine ⟨text.toList.flatMap escape ++ ['"'], by rw [quote, String.toList_ofList], fun rest => ?_⟩
    rw [List.append_assoc]
    induction text.toList with
    | nil => rfl
    | cons c text ih =>
      rw [List.flatMap_cons, List.append_assoc, (writes_escape c).behindQuote, ih]

end Quoted

theorem Value.legible_layout (v : Value) : Legible v.layout := by
  cases v with
  | bool b => cases b <;> exact .text (.inl (by decide)) (by decide)
  | int n =>
    exact .text (.inl (isWord_of_characters fun c => Decimal.mem_integer)) (Decimal.integer_ne_nil _)
  | double x =>
    exact .text (.inl (isWord_of_characters x.literal_characters.2)) x.literal_characters.1
  | str s =>
    have hquoted := Quoted.isQuoted_quote (Utf8.decodeLossy s.target.bytes)
    exact .text (.inr hquoted) hquoted.ne_nil
  | obj o =>
    exact (.text (.inl (by decide)) (by decide) : Legible (.text "<object string>"))

/-! Arrays and pools. -/

theorem legible_ofNat (n : ℕ) : Legible (.ofNat n) := by
  have hint : toString n = toString (n : ℤ) := rfl
  rw [ofNat, hint]
  exact .text (.inl (isWord_of_characters fun c => Decimal.mem_integer)) (Decimal.integer_ne_nil _)

theorem legible_ofBool (b : Bool) : Legible (.ofBool b) := by
  cases b <;> exact .text (.inl (by decide)) (by decide)

theorem legible_ofNat? (n : Option ℕ) : Legible (.ofNat? n) := by
  cases n with
  | none => exact .text (.inl (by decide)) (by decide)
  | some n =>
    refine .group (by decide) nofun ?_
    simpa using legible_ofNat n

theorem GrowthPolicy.legible_layout (p : GrowthPolicy) : Legible p.layout := by
  refine .group (by decide) (by decide) ?_
  simp only [List.forall_mem_cons]
  exact ⟨.field (by decide) (legible_ofNat _), .field (by decide) (legible_ofNat _), nofun⟩

theorem SlotsConfig.legible_layout (c : SlotsConfig) : Legible c.layout := by
  refine .group (by decide) (by decide) ?_
  simp only [List.forall_mem_cons]
  exact ⟨.field (by decide) c.growth.legible_layout, .field (by decide) (legible_ofNat? _),
    .field (by decide) (legible_ofBool _), nofun⟩

theorem SlotsCounters.legible_layout (c : SlotsCounters) : Legible c.layout := by
  refine .group (by decide) (by decide) ?_
  simp only [List.forall_mem_cons]
  exact ⟨.field (by decide) (legible_ofNat _), .field (by decide) (legible_ofNat _), nofun⟩

theorem Slots.legible_layout (s : Slots) : Legible s.layout := by
  refine .group (by decide) (by decide) ?_
  have hvalues : Legible (.group "" .square (s.values.toList.map Value.layout)) := by
    refine .group (by decide) nofun fun item hitem => ?_
    obtain ⟨v, _, rfl⟩ := List.mem_map.1 hitem
    exact v.legible_layout
  simp only [List.forall_mem_cons]
  exact ⟨.field (by decide) hvalues, .field (by decide) (legible_ofNat _),
    .field (by decide) s.config.legible_layout, .field (by decide) s.counters.legible_layout, nofun⟩

theorem Pool.legible_layout (p : Pool) : Legible p.layout := by
  refine .group (by decide) (by decide) ?_
  simp only [List.forall_mem_cons]
  exact ⟨.field (by decide) p.constants.legible_layout, .field (by decide) (legible_ofNat _), nofun⟩

/-! Lines. -/

def Value.line (depth : ℕ) (v : Value) : Line := ⟨depth, v.literal ++ ","⟩

theorem linesAll_values (depth : ℕ) (vs : List Value) :
    linesAll depth (vs.map Value.layout) = vs.map (Value.line depth) := by
  induction vs with
  | nil => rfl
  | cons v vs ih =>
    rw [List.map_cons, linesAll, ih, List.map_cons, Value.layout, lines]
    rfl

namespace Slots

variable {s : Slots}

def linesAhead (depth : ℕ) (lead : String) : List Line :=
  [⟨depth, lead ++ "ValueArray" ++ " \x7b"⟩, ⟨depth + 1, "values: ["⟩]

def linesBehind (s : Slots) (depth : ℕ) (trail : String) : List Line :=
  ⟨depth + 1, "],"⟩ ::
    (linesAll (depth + 1) [.field "capacity" (.ofNat s.capacity), .field "config" s.config.layout,
      .field "stats" s.counters.layout] ++ [⟨depth, "\x7d" ++ trail⟩])

theorem lines_layout (h : s.values ≠ #[]) (depth : ℕ) (lead trail : String) :
    s.layout.lines depth lead trail = linesAhead depth lead ++
      s.values.toList.map (Value.line (depth + 2)) ++ s.linesBehind depth trail := by
  have hvalues : s.values.toList.map Value.layout ≠ [] := by simpa using h
  rw [layout, lines_group_of_ne_nil (List.cons_ne_nil _ _), linesAll, lines,
    lines_group_of_ne_nil hvalues, linesAll_values, List.cons_append, List.cons_append,
    List.append_assoc, List.append_assoc]
  rfl

theorem textLines_spread (h : s.values ≠ #[]) : textLines s.layout.spread =
    (linesAhead 0 "" ++ s.values.toList.map (Value.line 2) ++ s.linesBehind 0 "").map
      Line.indented := by
  rw [s.legible_layout.textLines_spread, lines_layout h]

end Slots

namespace Pool

variable {p : Pool}

def linesAhead : List Line := ⟨0, "ConstantPool \x7b"⟩ :: Slots.linesAhead 1 "values: "

def linesBehind (p : Pool) : List Line :=
  p.constants.linesBehind 1 "," ++ [⟨1, "max: 256,"⟩, ⟨0, "\x7d"⟩]

theorem textLines_spread (h : p.constants.values ≠ #[]) : textLines p.layout.spread =
    (linesAhead ++ p.constants.values.toList.map (Value.line 3) ++ p.linesBehind).map
      Line.indented := by
  have hmost : lines 1 ("" ++ "max" ++ ": ") "," (.ofNat most) = [⟨1, "max: 256,"⟩] := by decide
  rw [p.legible_layout.textLines_spread, layout, lines_group_of_ne_nil (List.cons_ne_nil _ _),
    linesAll, lines, Slots.lines_layout h, linesAll, lines, hmost, linesAhead, linesBehind]
  simp only [List.cons_append, List.append_assoc]
  rfl

end Pool

/-- No literal holds a control or ends a line, whatever the bytes of a string are. So every value of an
array or a pool stands on a line of its own in the spread layout, between lines that do not depend on
the values. Joining the lines of any layout by their indentation gives its compact text, and for arrays
and pools the lines are found in the spread text; so either text is the same for two of them exactly if
the other is. -/
theorem layouts_carry_same_text :
    (∀ v : Value, ∀ c ∈ v.literal.toList, ¬ IsControl c) ∧
    (∀ s : Slots, ∃ ahead behind : List Line, ∀ vs : Array Value, vs ≠ #[] →
      textLines { s with values := vs }.layout.spread =
        (ahead ++ vs.toList.map (Value.line 2) ++ behind).map Line.indented) ∧
    (∀ s : Slots, ∃ ahead behind : List Line, ∀ vs : Array Value, vs ≠ #[] →
      textLines (Pool.layout ⟨{ s with values := vs }⟩).spread =
        (ahead ++ vs.toList.map (Value.line 3) ++ behind).map Line.indented) ∧
    (∀ x : Layout, String.ofList (gathered (x.lines 0 "" "")) = x.compact) ∧
    (∀ s : Slots, compacted s.layout.spread = s.layout.compact) ∧
    (∀ p : Pool, compacted p.layout.spread = p.layout.compact) ∧
    (∀ s t : Slots, s.layout.spread = t.layout.spread ↔ s.layout.compact = t.layout.compact) ∧
    ∀ p q : Pool, p.layout.spread = q.layout.spread ↔ p.layout.compact = q.layout.compact := by
  refine ⟨fun v c => Value.not_isControl_of_mem_literal,
    fun s => ⟨Slots.linesAhead 0 "", s.linesBehind 0 "", ?_⟩,
    fun s => ⟨Pool.linesAhead, Pool.linesBehind ⟨s⟩, ?_⟩, fun x => ?_,
    fun s => s.legible_layout.compacted_spread, fun p => p.legible_layout.compacted_spread,
    fun s t => ?_, fun p q => ?_⟩
  · intro vs hvs
    exact Slots.textLines_spread (s := { s with values := vs }) hvs
  · intro vs hvs
    exact Pool.textLines_spread (p := ⟨{ s with values := vs }⟩) hvs
  · rw [gathered_lines, String.ofList_toList]
  · rw [s.legible_layout.spread_inj t.legible_layout, s.legible_layout.compact_inj t.legible_layout]
  · rw [p.legible_layout.spread_inj q.legible_layout, p.legible_layout.compact_inj q.legible_layout]

theorem layouts_carry_same_text_breaks :
    let v : Value := .str ⟨1, .ofBytes [0x0A, 0x22, 0x2C, 0x5D]⟩
    let vs : Array Value := #[v, .int 1]
    let s : Slots := { values := vs, config := {} }
    'n' ∈ v.literal.toList ∧ ¬ IsControl 'n' ∧ v.literal = "\"\\n\\\",]\"" ∧ vs ≠ #[] ∧
      (∃ ahead behind : List Line, textLines s.layout.spread =
        (ahead ++ vs.toList.map (Value.line 2) ++ behind).map Line.indented) ∧
      (∃ ahead behind : List Line, textLines (Pool.layout ⟨s⟩).spread =
        (ahead ++ vs.toList.map (Value.line 3) ++ behind).map Line.indented) ∧
      compacted s.layout.spread = "ValueArray \x7b values: [\"\\n\\\",]\", 1], capacity: 0, " ++
        "config: ArrayConfig \x7b growth: GrowthPolicy \x7b minimum_block: 8, factor: 2 \x7d, " ++
        "max_capacity: None, trace: false \x7d, stats: ArrayStats \x7b grows: 0, copied: 0 \x7d \x7d" := by
  intro v vs s
  obtain ⟨hcontrol, harray, hpool, _, hcompacted, _⟩ := layouts_carry_same_text
  have hmem : 'n' ∈ v.literal.toList := by decide
  have hne : vs ≠ #[] := by simp [vs]
  obtain ⟨ahead, behind, hlines⟩ := harray s
  obtain ⟨ahead', behind', hlines'⟩ := hpool s
  refine ⟨hmem, hcontrol v _ hmem, by decide, hne, ⟨ahead, behind, hlines vs hne⟩,
    ⟨ahead', behind', hlines' vs hne⟩, ?_⟩
  rw [hcompacted]
  decide +kernel

end ValueStorage
