import Mathlib.Data.Bool.AllAny
import ValueStorage.Proofs.LiteralText

/-! Which characters the texts of values are made of. All but strings are written in letters, digits,
points and minus signs, with some marks around the literal of an object. A quoted text may hold any
character but the controls and the separators of lines, which it escapes. -/

namespace ValueStorage

variable {c : Char}

def IsWordCharacter (c : Char) : Prop := c.isAlphanum ∨ c = '-' ∨ c = '.'

instance (c : Char) : Decidable (IsWordCharacter c) := inferInstanceAs (Decidable (_ ∨ _))

theorem isWordCharacter_of_all {text : List Char} (h : text.all (IsWordCharacter ·))
    (hc : c ∈ text) : IsWordCharacter c := List.all_iff_forall_prop.1 h c hc

theorem isWordCharacter_of_isDigit (h : c.isDigit) : IsWordCharacter c := by
  refine .inl ?_
  rw [Char.isAlphanum, h, Bool.or_true]

/-- The controls, and the separators of lines and of paragraphs. -/
def IsControl (c : Char) : Prop :=
  c.toNat < 0x20 ∨ 0x7F ≤ c.toNat ∧ c.toNat ≤ 0x9F ∨ c.toNat = 0x2028 ∨ c.toNat = 0x2029

instance (c : Char) : Decidable (IsControl c) := inferInstanceAs (Decidable (_ ∨ _))

theorem not_isControl_of_all {text : List Char} (h : text.all (¬ IsControl ·)) (hc : c ∈ text) :
    ¬ IsControl c := List.all_iff_forall_prop.1 h c hc

theorem bounds_of_isAlphanum (h : c.isAlphanum) : 0x30 ≤ c.toNat ∧ c.toNat ≤ 0x7A := by
  rcases Bool.or_eq_true_iff.1 h with halpha | hdigit
  · rcases Bool.or_eq_true_iff.1 halpha with hupper | hlower
    · have hrange : 'A'.toNat ≤ c.toNat ∧ c.toNat ≤ 'Z'.toNat := of_decide_eq_true hupper
      exact ⟨Nat.le_trans (by decide) hrange.1, Nat.le_trans hrange.2 (by decide)⟩
    · obtain ⟨hlow, hhigh⟩ := Bool.and_eq_true_iff.1 hlower
      have hlow : 'a'.toNat ≤ c.toNat := of_decide_eq_true hlow
      exact ⟨Nat.le_trans (by decide) hlow, of_decide_eq_true hhigh⟩
  · obtain ⟨hlow, hhigh⟩ := Char.isDigit_iff_toNat.1 hdigit
    exact ⟨hlow, Nat.le_trans hhigh (by decide)⟩

theorem IsWordCharacter.not_isControl (h : IsWordCharacter c) : ¬ IsControl c := by
  rcases h with hletter | rfl | rfl
  · have hbounds := bounds_of_isAlphanum hletter
    rw [IsControl]
    omega
  · decide
  · decide

/-! Quoted texts. -/

theorem Unicode.not_isControl_of_isPrintable (h : isPrintable c) : ¬ IsControl c := by
  simp only [isPrintable, List.any_cons, Bool.not_or, Bool.and_eq_true, Bool.not_eq_true'] at h
  obtain ⟨hcontrol, _, _, hseparator, _⟩ := h
  rw [control, covers, covers] at hcontrol
  rintro (hlow | ⟨hlow, hhigh⟩ | hline | hparagraph)
  · grind
  · grind
  · exact absurd (hline ▸ hseparator) (by decide)
  · exact absurd (hparagraph ▸ hseparator) (by decide)

namespace Quoted

theorem mem_toDigits {n : ℕ} (h : c ∈ Nat.toDigits 16 n) : ∃ k < 16, c = k.digitChar := by
  induction n using Nat.strongRecOn with
  | ind n ih =>
    rcases Nat.lt_or_ge n 16 with hlt | hge
    · rw [Nat.toDigits_of_lt_base hlt] at h
      exact ⟨n, hlt, List.mem_singleton.1 h⟩
    · rw [Nat.toDigits_of_base_le (by decide) hge] at h
      rcases List.mem_append.1 h with hfirst | hlast
      · exact ih (n / 16) (by omega) hfirst
      · exact ⟨n % 16, Nat.mod_lt _ (by decide), List.mem_singleton.1 hlast⟩

theorem isWordCharacter_of_mem_toDigits {n : ℕ} (h : c ∈ Nat.toDigits 16 n) :
    IsWordCharacter c := by
  obtain ⟨k, hk, rfl⟩ := mem_toDigits h
  exact (by decide : ∀ k < 16, IsWordCharacter (Nat.digitChar k)) k hk

theorem not_isControl_of_mem_escapeCode {d : Char} (h : d ∈ escapeCode c) : ¬ IsControl d := by
  rcases List.mem_append.1 h with hfront | hclosing
  · rcases List.mem_append.1 hfront with hopening | hdigit
    · exact not_isControl_of_all (by decide) hopening
    · exact (isWordCharacter_of_mem_toDigits hdigit).not_isControl
  · rw [List.mem_singleton.1 hclosing]
    decide

theorem not_isControl_of_mem_escape {d : Char} (h : d ∈ escape c) : ¬ IsControl d := by
  unfold escape at h
  split_ifs at h with _ _ _ _ _ _ hcode
  -- Six characters have a name.
  iterate 6 exact not_isControl_of_all (by decide) h
  · exact not_isControl_of_mem_escapeCode h
  · rw [List.mem_singleton.1 h]
    refine Unicode.not_isControl_of_isPrintable ?_
    simpa using (not_or.1 (mt Bool.or_eq_true_iff.2 hcode)).2

theorem not_isControl_of_mem_quote {text : String} (h : c ∈ (quote text).toList) :
    ¬ IsControl c := by
  rw [quote, String.toList_ofList] at h
  rcases List.mem_cons.1 h with rfl | h
  · decide
  rcases List.mem_append.1 h with hwritten | hquote
  · obtain ⟨d, _, hd⟩ := List.mem_flatMap.1 hwritten
    exact not_isControl_of_mem_escape hd
  · rw [List.mem_singleton.1 hquote]
    decide

end Quoted

/-! Numbers. -/

namespace Decimal

theorem mem_integer {n : ℤ} (h : c ∈ (toString n).toList) : IsWordCharacter c := by
  rcases mem_toString h with hdigit | hminus
  · exact isWordCharacter_of_isDigit hdigit
  · exact .inr (.inl hminus)

theorem integer_ne_nil (n : ℤ) : (toString n).toList ≠ [] := by
  intro h
  have hread := intOf?_toString n
  rw [h] at hread
  exact nomatch hread

theorem mem_pointed {whole decimals : List Char} {places n : ℕ}
    (hspells : Spells whole decimals places n) (h : c ∈ whole ++ '.' :: decimals) :
    IsWordCharacter c := by
  rcases List.mem_append.1 h with hwhole | hrest
  · exact isWordCharacter_of_isDigit (hspells.digits c (List.mem_append_left _ hwhole))
  rcases List.mem_cons.1 hrest with rfl | hdecimals
  · decide
  · exact isWordCharacter_of_isDigit (hspells.digits c (List.mem_append_right _ hdecimals))

theorem mem_scientific {body : List Char} (hbody : IsScientific body) (h : c ∈ body) :
    IsWordCharacter c := by
  obtain ⟨first, rest, exponent, rfl, hdigits, _, _⟩ := hbody
  rcases List.mem_append.1 h with hmantissa | hexponent
  · rw [mantissa, List.singleton_append] at hmantissa
    rcases List.mem_cons.1 hmantissa with rfl | hrest
    · exact isWordCharacter_of_isDigit (hdigits c (List.mem_cons_self ..))
    split at hrest
    · exact absurd hrest List.not_mem_nil
    rcases List.mem_cons.1 hrest with rfl | hrest
    · decide
    · exact isWordCharacter_of_isDigit (hdigits c (List.mem_cons_of_mem _ hrest))
  · rcases List.mem_cons.1 hexponent with rfl | hexponent
    · decide
    · exact mem_integer hexponent

end Decimal

namespace Binary64

variable {x : Binary64}

theorem kind_cases (x : Binary64) : x.isNaN ∨ x.isInfinite ∨ x.isFinite := by
  simp only [isNaN, isInfinite, isFinite, decide_eq_true_eq]
  tauto

theorem mem_signText (h : c ∈ x.signText.toList) : IsWordCharacter c := by
  rw [signText_eq, String.toList_ofList] at h
  split at h
  · rw [List.mem_singleton.1 h]
    decide
  · exact nomatch h

theorem fixedText_characters (x : Binary64) :
    x.fixedText.toList ≠ [] ∧ ∀ c ∈ x.fixedText.toList, IsWordCharacter c := by
  rcases x.kind_cases with hnan | hinfinite | hfinite
  · rw [fixedText_of_isNaN hnan]
    exact ⟨by decide, fun c => isWordCharacter_of_all (by decide)⟩
  · rw [fixedText_of_isInfinite hinfinite]
    split <;> exact ⟨by decide, fun c => isWordCharacter_of_all (by decide)⟩
  · obtain ⟨whole, decimals, htext, hspells⟩ := Decimal.spells_pointed 6 x.millionths
    rw [fixedText_of_isFinite hfinite, htext, String.toList_append, String.toList_ofList]
    refine ⟨by simp, fun c hc => ?_⟩
    rcases List.mem_append.1 hc with hsign | hbody
    · exact mem_signText hsign
    · exact Decimal.mem_pointed hspells hbody

theorem Shows.mem {negative : Bool} {body : List Char} (hshows : x.Shows negative body)
    (h : c ∈ body) : IsWordCharacter c := by
  rcases hshows with ⟨_, _, rfl⟩ | ⟨_, _, rfl⟩ | ⟨_, _, _, _, hform⟩
  · exact isWordCharacter_of_all (by decide) h
  · exact isWordCharacter_of_all (by decide) h
  · rcases hform with ⟨whole, decimals, n, rfl, _, hspells⟩ | hscientific
    · exact Decimal.mem_pointed hspells h
    · exact Decimal.mem_scientific hscientific h

theorem literal_characters (x : Binary64) :
    x.literal.toList ≠ [] ∧ ∀ c ∈ x.literal.toList, IsWordCharacter c := by
  obtain ⟨negative, body, htext, hshows⟩ := x.exists_shows
  obtain ⟨first, rest, hbody, _⟩ := hshows.begins
  rw [htext, String.toList_ofList]
  refine ⟨by simp [hbody], fun c hc => ?_⟩
  rcases List.mem_append.1 hc with hsign | hbody
  · split at hsign
    · rw [List.mem_singleton.1 hsign]
      decide
    · exact nomatch hsign
  · exact hshows.mem hbody

end Binary64

/-! Values. -/

namespace Value

theorem display_characters {v : Value} (hv : v.tag ≠ .str) :
    v.display.toList ≠ [] ∧ ∀ c ∈ v.display.toList, IsWordCharacter c := by
  cases v with
  | bool b => cases b <;> exact ⟨by decide, fun c => isWordCharacter_of_all (by decide)⟩
  | int n => exact ⟨Decimal.integer_ne_nil _, fun c => Decimal.mem_integer⟩
  | double x => exact x.fixedText_characters
  | str s => exact absurd rfl hv
  | obj o =>
    rw [display]
    exact ⟨by decide, fun c => isWordCharacter_of_all (by decide)⟩

theorem not_isControl_of_mem_literal {v : Value} (h : c ∈ v.literal.toList) : ¬ IsControl c := by
  cases v with
  | bool b => cases b <;> exact not_isControl_of_all (by decide) h
  | int n => exact (Decimal.mem_integer h).not_isControl
  | double x => exact (x.literal_characters.2 c h).not_isControl
  | str s => exact Quoted.not_isControl_of_mem_quote h
  | obj o =>
    rw [literal] at h
    exact not_isControl_of_all (by decide) h

end Value

end ValueStorage
