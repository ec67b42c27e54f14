import ValueStorage.Proofs.LiteralNumber
import ValueStorage.Proofs.QuotedText
import ValueStorage.Proofs.StringViews

/-! What the literal of a value tells. Its first character and, among numbers, whether there is anything
but digits give the tag. Within a tag the text is read back: whole numbers by their digits, binary
numbers because rounding gives one number, strings by undoing the escapes. -/

namespace ValueStorage

open Decimal

/-! Numbers. -/

namespace Binary64

variable {x z : Binary64} {negative : Bool} {body : List Char}

inductive Shows (x : Binary64) (negative : Bool) (body : List Char) : Prop
  | nan (h : x.isNaN) (hn : negative = false) (hb : body = "NaN".toList)
  | infinite (h : x.isInfinite) (hn : negative = x.isNegative) (hb : body = "inf".toList)
  | finite (h : x.isFinite) (hn : negative = x.isNegative) {q : ℚ} (hq : read? body = some q)
      (hx : RoundsTo (x.sign * q) x) (hb : IsPositional body ∨ IsScientific body)

theorem literal_of_isNaN (h : x.isNaN) : x.literal = "NaN" := by
  rw [literal, if_pos h]

theorem literal_of_isInfinite (h : x.isInfinite) : x.literal = x.signText ++ "inf" := by
  rw [literal, if_neg (not_isNaN_of_isInfinite h), if_pos h]

theorem exists_shows (x : Binary64) : ∃ negative body,
    x.literal = String.ofList ((if negative then ['-'] else []) ++ body) ∧
      x.Shows negative body := by
  have hsign : x.signText = String.ofList (if x.isNegative then ['-'] else []) := by
    rw [signText_eq, isNegative_eq_testBit]
  by_cases hnan : x.isNaN
  · exact ⟨false, _, literal_of_isNaN hnan, .nan hnan rfl rfl⟩
  by_cases hinfinite : x.isInfinite
  · refine ⟨x.isNegative, _, ?_, .infinite hinfinite rfl rfl⟩
    rw [literal_of_isInfinite hinfinite, hsign, String.ofList_append]
    rfl
  · have hfinite : x.isFinite := by
      simp only [isNaN, isInfinite, isFinite, decide_eq_true_eq] at hnan hinfinite ⊢
      tauto
    obtain ⟨body, htext, hwrites, hform⟩ := x.exists_body
    refine ⟨x.isNegative, body, ?_, .finite hfinite rfl hwrites.read (roundsTo_shortest hfinite) ?_⟩
    · rw [literal_of_isFinite hfinite, htext, hsign, ← String.ofList_append]
    · split at hform
      · exact .inl hform
      · exact .inr hform

theorem Shows.begins (h : x.Shows negative body) : ∃ first rest, body = first :: rest ∧
    (first.isDigit ∨ first = 'N' ∨ first = 'i') ∧ ∃ c ∈ body, c.isDigit = false ∧ c ≠ '-' := by
  rcases h with ⟨_, _, rfl⟩ | ⟨_, _, rfl⟩ | ⟨_, _, _, _, hform⟩
  · exact ⟨'N', _, rfl, .inr (.inl rfl), 'N', by decide, rfl, by decide⟩
  · exact ⟨'i', _, rfl, .inr (.inr rfl), 'i', by decide, rfl, by decide⟩
  rcases hform with ⟨whole, decimals, n, rfl, _, hspells⟩ | ⟨first, rest, exponent, rfl, hd, _⟩
  · obtain ⟨first, rest, rfl⟩ := List.exists_cons_of_ne_nil hspells.whole_ne_nil
    exact ⟨first, _, rfl, .inl (hspells.digits first (List.mem_cons_self ..)), '.',
      List.mem_append_right _ (List.mem_cons_self ..), rfl, by decide⟩
  · exact ⟨first, _, rfl, .inl (hd first (List.mem_cons_self ..)), 'e',
      List.mem_append_right _ (List.mem_cons_self ..), rfl, by decide⟩

theorem Shows.head?_ne (h : x.Shows negative body) : body.head? ≠ some '-' := by
  obtain ⟨first, rest, rfl, hfirst, _⟩ := h.begins
  intro hminus
  obtain rfl := Option.some.inj hminus
  revert hfirst
  decide

theorem Shows.eq_or_nan (hx : x.Shows negative body) (hz : z.Shows negative body) :
    x = z ∨ x.isNaN ∧ z.isNaN := by
  -- the words are told apart as they stand, and neither is read as a number
  have hne : "NaN".toList ≠ "inf".toList := by decide
  have hnan (hb : body = "NaN".toList) : read? body = none := by
    rw [hb]
    decide
  have hinf (hb : body = "inf".toList) : read? body = none := by
    rw [hb]
    decide
  cases hx with
  | nan hx _ hxb =>
    cases hz with
    | nan hz => exact .inr ⟨hx, hz⟩
    | infinite _ _ hzb => exact absurd (hxb.symm.trans hzb) hne
    | finite _ _ hzq => exact nomatch (hnan hxb).symm.trans hzq
  | infinite hx hxn hxb =>
    cases hz with
    | nan _ _ hzb => exact absurd (hzb.symm.trans hxb) hne
    | infinite hz hzn =>
      simp only [isInfinite, decide_eq_true_eq] at hx hz
      exact .inl (eq_of_fields (hxn.symm.trans hzn) (hx.1.trans hz.1.symm) (hx.2.trans hz.2.symm))
    | finite _ _ hzq => exact nomatch (hinf hxb).symm.trans hzq
  | finite _ hxn hxq hxr =>
    cases hz with
    | nan _ _ hzb => exact nomatch (hnan hzb).symm.trans hxq
    | infinite _ _ hzb => exact nomatch (hinf hzb).symm.trans hxq
    | finite _ hzn hzq hzr =>
      have hsame : x.isNegative = z.isNegative := hxn.symm.trans hzn
      have hsign : x.sign = z.sign := by
        rw [sign, sign, hsame]
      obtain rfl := Option.some.inj (hxq.symm.trans hzq)
      rw [hsign] at hxr
      exact .inl (eq_of_abs_value_eq hsame (congrArg _ (hxr.value_inj hzr)))

theorem sign_append_inj {a b : Bool} {first second : List Char} (hf : first.head? ≠ some '-')
    (hs : second.head? ≠ some '-')
    (h : (if a then ['-'] else []) ++ first = (if b then ['-'] else []) ++ second) :
    a = b ∧ first = second := by
  cases a <;> cases b
  · exact ⟨rfl, h⟩
  · exact absurd (congrArg List.head? h) hf
  · exact absurd (congrArg List.head? h).symm hs
  · exact ⟨rfl, List.tail_eq_of_cons_eq h⟩

theorem literal_eq_iff : x.literal = z.literal ↔ x = z ∨ x.isNaN ∧ z.isNaN := by
  constructor
  · intro h
    obtain ⟨negative, body, hx, hshows⟩ := x.exists_shows
    obtain ⟨negative', body', hz, hshows'⟩ := z.exists_shows
    rw [hx, hz] at h
    obtain ⟨rfl, rfl⟩ := sign_append_inj hshows.head?_ne hshows'.head?_ne
      (String.ofList_injective h)
    exact hshows.eq_or_nan hshows'
  · rintro (rfl | ⟨hx, hz⟩)
    · rfl
    · rw [literal_of_isNaN hx, literal_of_isNaN hz]

end Binary64

/-! Tags. -/

namespace Value

def Tag.shown (text : List Char) : Tag :=
  if text.head? = some '"' then .str
  else if text.head? = some '<' then .obj
  else if text.head? = some 't' ∨ text.head? = some 'f' then .bool
  else if text.all fun c => c.isDigit || c = '-' then .int
  else .double

theorem Tag.shown_number {first : Char} {rest : List Char}
    (h : first.isDigit ∨ first = '-' ∨ first = 'N' ∨ first = 'i') :
    shown (first :: rest) =
      if (first :: rest).all fun c => c.isDigit || c = '-' then .int else .double := by
  have hne {c : Char} (hc : ¬ (c.isDigit ∨ c = '-' ∨ c = 'N' ∨ c = 'i')) :
      (first :: rest).head? ≠ some c := by
    intro he
    obtain rfl := Option.some.inj he
    exact hc h
  have hbool : ¬ ((first :: rest).head? = some 't' ∨ (first :: rest).head? = some 'f') :=
    not_or.2 ⟨hne (by decide), hne (by decide)⟩
  rw [shown, if_neg (hne (by decide)), if_neg (hne (by decide)), if_neg hbool]

theorem shown_int (n : ℤ) : Tag.shown (toString n).toList = .int := by
  have hne : (toString n).toList ≠ [] := by
    intro he
    have hread := intOf?_toString n
    rw [he] at hread
    exact nomatch hread
  obtain ⟨first, rest, htext⟩ := List.exists_cons_of_ne_nil hne
  have hmem : ∀ c ∈ first :: rest, c.isDigit ∨ c = '-' := fun c hc => mem_toString (htext ▸ hc)
  have hfirst := hmem first (List.mem_cons_self ..)
  rw [htext, Tag.shown_number (by tauto), if_pos]
  refine List.all_eq_true.2 fun c hc => ?_
  simpa using hmem c hc

theorem shown_double (x : Binary64) : Tag.shown x.literal.toList = .double := by
  obtain ⟨negative, body, htext, hshows⟩ := x.exists_shows
  obtain ⟨first, rest, rfl, hfirst, c, hc, hdigit, hminus⟩ := hshows.begins
  have hall : ∀ text : List Char, c ∈ text → ¬ text.all fun c => c.isDigit || c = '-' := by
    intro text hmem hall
    have hc := List.all_eq_true.1 hall c hmem
    simp [hdigit, hminus] at hc
  rw [htext, String.toList_ofList]
  cases negative
  · change Tag.shown (first :: rest) = .double
    rw [Tag.shown_number (by tauto), if_neg (hall _ hc)]
  · change Tag.shown ('-' :: first :: rest) = .double
    rw [Tag.shown_number (by decide), if_neg (hall _ (List.mem_cons_of_mem _ hc))]

theorem shown_literal (v : Value) : Tag.shown v.literal.toList = v.tag := by
  cases v with
  | bool b => cases b <;> decide
  | int n => exact shown_int n.toInt
  | double x => exact shown_double x
  | str s =>
    rw [literal, Quoted.quote, String.toList_ofList]
    rfl
  | obj o => exact (by decide : Tag.shown "<object string>".toList = .obj)

theorem tag_eq_of_literal_eq {u v : Value} (h : u.literal = v.literal) : u.tag = v.tag := by
  rw [← shown_literal, ← shown_literal, h]

/-! Payloads. -/

/-- Two values with the same tag and the same payload. All NaNs are the same here, and a string is
what its bytes are. -/
inductive Alike : Value → Value → Prop
  | bool (b : Bool) : Alike (bool b) (bool b)
  | int (n : Int64) : Alike (int n) (int n)
  | double (x : Binary64) : Alike (double x) (double x)
  | nan {x z : Binary64} (hx : x.isNaN) (hz : z.isNaN) : Alike (double x) (double z)
  | str {s t : Handle StringObject} (h : s.target.bytes = t.target.bytes) : Alike (str s) (str t)

/-- The values whose literal is to tell everything: all but objects, and strings that are no text. -/
inductive Plain : Value → Prop
  | bool (b : Bool) : Plain (bool b)
  | int (n : Int64) : Plain (int n)
  | double (x : Binary64) : Plain (double x)
  | str {s : Handle StringObject} (h : Utf8.WellFormed s.target.bytes) : Plain (str s)

theorem bytes_eq_of_decodeLossy_eq {first second : List UInt8} (hf : Utf8.WellFormed first)
    (hs : Utf8.WellFormed second) (h : Utf8.decodeLossy first = Utf8.decodeLossy second) :
    first = second := by
  obtain ⟨text, rfl⟩ := hf.exists_encode
  obtain ⟨text', rfl⟩ := hs.exists_encode
  rw [Utf8.decodeLossy_encode, Utf8.decodeLossy_encode] at h
  rw [h]

theorem alike_of_literal_eq {u v : Value} (hu : Plain u) (hv : Plain v)
    (h : u.literal = v.literal) : Alike u v := by
  have htag := tag_eq_of_literal_eq h
  cases hu with
  | bool b =>
    cases hv with
    | bool c =>
      obtain rfl : b = c := by
        revert h
        cases b <;> cases c <;> decide
      exact .bool b
    | int _ | double _ | str _ => exact nomatch htag
  | int n =>
    cases hv with
    | int m =>
      obtain rfl : n = m := Int64.toInt_inj.1 (toString_injective h)
      exact .int n
    | bool _ | double _ | str _ => exact nomatch htag
  | double x =>
    cases hv with
    | double z =>
      rcases Binary64.literal_eq_iff.1 h with rfl | ⟨hx, hz⟩
      · exact .double x
      · exact .nan hx hz
    | bool _ | int _ | str _ => exact nomatch htag
  | str hs =>
    cases hv with
    | str ht => exact .str (bytes_eq_of_decodeLossy_eq hs ht (Quoted.quote_injective h))
    | bool _ | int _ | double _ => exact nomatch htag

theorem Alike.literal_eq {u v : Value} (h : Alike u v) : u.literal = v.literal := by
  cases h with
  | bool b | int n | double x => rfl
  | nan hx hz => exact Binary64.literal_eq_iff.2 (.inr ⟨hx, hz⟩)
  | str h => exact congrArg (fun bytes => Quoted.quote (Utf8.decodeLossy bytes)) h

end Value

open Value

/-- The literals of two values are the same exactly if tag and payload are, provided that their strings
are text, and none of them is that of an object. The literal of a string of any bytes is read back as
the text that is displayed for it. -/
theorem literal_determines_value :
    (∀ u v : Value, Plain u → Plain v → (u.literal = v.literal ↔ Alike u v)) ∧
    (∀ (u : Value) (o : Handle Object), Plain u → u.literal ≠ (Value.obj o).literal) ∧
    ∀ bytes v, StringOf bytes v →
      Quoted.unquote? v.literal = some v.display ∧ v.display = Utf8.decodeLossy bytes := by
  refine ⟨fun u v hu hv => ⟨alike_of_literal_eq hu hv, Alike.literal_eq⟩, fun u o hu h => ?_,
    fun bytes v hv => ?_⟩
  · have htag := tag_eq_of_literal_eq h
    cases hu <;> exact nomatch htag
  · obtain ⟨identity, rfl⟩ := hv.eq_str
    exact ⟨Quoted.unquote?_quote _, rfl⟩

theorem literal_determines_value_escapes :
    let nan : Value := .double ⟨0x7FF8000000000000⟩
    let other : Value := .double ⟨0xFFF0000000000001⟩
    let nul : Value := .str ⟨1, .ofBytes [0x00]⟩
    let escaped : Value := .str ⟨2, .ofBytes [0x5C, 0x30]⟩
    let bytes : List UInt8 := [0x22, 0xFF, 0x1B]
    let v : Value := .str ⟨3, .ofBytes bytes⟩
    Plain nan ∧ Plain other ∧ nan.literal = other.literal ∧ Alike nan other ∧
      (Value.int 1).literal ≠ (Value.double ⟨0x3FF0000000000000⟩).literal ∧
      Plain nul ∧ Plain escaped ∧ nul.literal ≠ escaped.literal ∧
      nul.literal ≠ (Value.obj ⟨4, .string (.ofBytes [])⟩).literal ∧
      StringOf bytes v ∧ v.literal = "\"\\\"\uFFFD\\u\x7b1b\x7d\"" ∧
      Quoted.unquote? v.literal = some "\"\uFFFD\x1b" := by
  intro nan other nul escaped bytes v
  obtain ⟨hiff, hobject, hstring⟩ := literal_determines_value
  have hnul : Plain nul := .str (Utf8.exists_decode?.1 ⟨_, (by decide : _ = some "\x00")⟩)
  have hescaped : Plain escaped := .str (Utf8.exists_decode?.1 ⟨_, (by decide : _ = some "\\0")⟩)
  have hnan : Alike nan other := .nan (by decide) (by decide)
  have hnumbers : (Value.int 1).literal ≠ (Value.double ⟨0x3FF0000000000000⟩).literal := by
    rw [Ne, hiff _ _ (.int 1) (.double _)]
    exact nofun
  have htexts : nul.literal ≠ escaped.literal := by
    rw [Ne, hiff _ _ hnul hescaped]
    change ¬ Alike (.str _) (.str _)
    intro h
    cases h with
    | str h => exact absurd h (by decide)
  have hread : v.display = "\"\uFFFD\x1b" := by decide
  refine ⟨.double _, .double _, (hiff nan other (.double _) (.double _)).2 hnan, hnan, hnumbers,
    hnul, hescaped, htexts, hobject nul _ hnul, .literal 3, by decide +kernel, ?_⟩
  rw [(hstring bytes v (.literal 3)).1, hread]

end ValueStorage
