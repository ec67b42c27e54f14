import Mathlib.Data.List.DropRight
import ValueStorage.Proofs.FixedText
import ValueStorage.Proofs.ShortestDecimal

/-! Decimal numbers in writing. A reader takes digits with a point among them and an exponent, and
finds the number that was written in either form. What counts as a digit of a number are the digits
from the first to the last that is not zero. -/

namespace ValueStorage.Decimal

def natOf? (text : List Char) : Option ℕ :=
  if text ≠ [] ∧ text.all Char.isDigit then some (Nat.ofDigitChars 10 text 0) else none

def intOf? : List Char → Option ℤ
  | '-' :: digits => (natOf? digits).map fun n : ℕ => -(n : ℤ)
  | digits => (natOf? digits).map fun n : ℕ => (n : ℤ)

def exponentOf? : List Char → Option ℤ
  | [] => some 0
  | _ :: digits => intOf? digits

def read? (text : List Char) : Option ℚ :=
  let mantissa := text.takeWhile (· ≠ 'e')
  let whole := mantissa.takeWhile (· ≠ '.')
  let decimals := (mantissa.dropWhile (· ≠ '.')).tail
  (natOf? (whole ++ decimals)).bind fun n : ℕ =>
    (exponentOf? (text.dropWhile (· ≠ 'e'))).map fun e : ℤ =>
      (n : ℚ) * 10 ^ (e - (decimals.length : ℤ))

def trimmed (digits : List Char) : List Char := (digits.dropWhile (· = '0')).rdropWhile (· = '0')

/-- How many digits a number has in writing, zeros in front and at the end not counted. -/
def significant (text : List Char) : ℕ :=
  (trimmed ((text.takeWhile (· ≠ 'e')).filter Char.isDigit)).length

def mantissa (whole decimals : List Char) : List Char :=
  whole ++ if decimals = [] then [] else '.' :: decimals

def IsPositional (text : List Char) : Prop :=
  ∃ whole decimals n, text = whole ++ '.' :: decimals ∧ decimals ≠ [] ∧
    Spells whole decimals decimals.length n

/-- One digit in front that is not zero, further ones behind a point if there are any, the last of which
is not zero, and an exponent. -/
def IsScientific (text : List Char) : Prop :=
  ∃ first rest, ∃ exponent : ℤ,
    text = mantissa [first] rest ++ 'e' :: (toString exponent).toList ∧
      (∀ c ∈ first :: rest, c.isDigit) ∧ first ≠ '0' ∧ rest.getLast? ≠ some '0'

/-! Digits. -/

section Digits

variable {digits : List Char}

theorem natOf?_eq_some (hne : digits ≠ []) (hd : ∀ c ∈ digits, c.isDigit) :
    natOf? digits = some (Nat.ofDigitChars 10 digits 0) :=
  if_pos ⟨hne, List.all_eq_true.2 hd⟩

theorem natOf?_toDigits (n : ℕ) : natOf? (Nat.toDigits 10 n) = some n := by
  rw [natOf?_eq_some Nat.toDigits_ne_nil fun c => Nat.isDigit_of_mem_toDigits (by decide) (by decide),
    Nat.ofDigitChars_ten_toDigits]

theorem intOf?_digits (h : ∀ c ∈ digits, c.isDigit) :
    intOf? digits = (natOf? digits).map fun n : ℕ => (n : ℤ) := by
  unfold intOf?
  split
  · next rest => exact absurd (h '-' (List.mem_cons_self ..)) (by decide)
  · rfl

theorem toList_toString (n : ℤ) : (toString n).toList =
    if 0 ≤ n then Nat.toDigits 10 n.toNat else '-' :: Nat.toDigits 10 (-n).toNat := by
  rw [Int.toString_eq_repr, Int.repr_eq_if]
  split
  · exact Nat.toList_repr
  · rw [String.toList_append, Nat.toList_repr]
    rfl

theorem intOf?_toString (n : ℤ) : intOf? (toString n).toList = some n := by
  rw [toList_toString]
  split
  · next h =>
    rw [intOf?_digits fun c => Nat.isDigit_of_mem_toDigits (by decide) (by decide), natOf?_toDigits,
      Option.map_some, Int.toNat_of_nonneg h]
  · next h =>
    change (natOf? (Nat.toDigits 10 (-n).toNat)).map _ = _
    rw [natOf?_toDigits, Option.map_some]
    congr 1
    omega

theorem toString_injective : Function.Injective fun n : ℤ => toString n := by
  intro n m h
  have hread := intOf?_toString n
  rw [show toString n = toString m from h, intOf?_toString m] at hread
  exact (Option.some.inj hread).symm

theorem mem_toString {n : ℤ} {c : Char} (h : c ∈ (toString n).toList) : c.isDigit ∨ c = '-' := by
  have hdigit {n : ℕ} (h : c ∈ Nat.toDigits 10 n) : c.isDigit :=
    Nat.isDigit_of_mem_toDigits (by decide) (by decide) h
  rw [toList_toString] at h
  split at h
  · exact .inl (hdigit h)
  · rcases List.mem_cons.1 h with hminus | hrest
    · exact .inr hminus
    · exact .inl (hdigit hrest)

theorem ne_of_isDigit {c d : Char} (hc : c.isDigit) (hd : d.isDigit = false) : c ≠ d := by
  rintro rfl
  rw [hd] at hc
  exact nomatch hc

theorem ofDigitChars_lt (h : ∀ c ∈ digits, c.isDigit) (init : ℕ) :
    Nat.ofDigitChars 10 digits init < (init + 1) * 10 ^ digits.length := by
  induction digits generalizing init with
  | nil => simp
  | cons c digits ih =>
    have hc : c.toNat - '0'.toNat ≤ 9 := by
      have hdigit := h c (List.mem_cons_self ..)
      simp only [Char.isDigit, Bool.and_eq_true, decide_eq_true_eq, UInt32.le_iff_toNat_le] at hdigit
      change c.toNat - 48 ≤ 9
      have : c.toNat ≤ 57 := hdigit.2
      omega
    rw [Nat.ofDigitChars_cons, List.length_cons, pow_succ']
    refine (ih (fun d hd => h d (List.mem_cons_of_mem _ hd)) _).trans_le ?_
    rw [← mul_assoc]
    exact Nat.mul_le_mul_right _ (by omega)

theorem ofDigitChars_append_zeros (zeros : ℕ) :
    Nat.ofDigitChars 10 (digits ++ List.replicate zeros '0') 0 =
      Nat.ofDigitChars 10 digits 0 * 10 ^ zeros := by
  rw [Nat.ofDigitChars_append, Nat.ofDigitChars_replicate_zero, mul_comm]

theorem toDigits_mul_ten_pow {n : ℕ} (hn : 0 < n) (zeros : ℕ) :
    Nat.toDigits 10 (n * 10 ^ zeros) = Nat.toDigits 10 n ++ List.replicate zeros '0' := by
  induction zeros with
  | zero => simp
  | succ zeros ih =>
    have hpos : 0 < n * 10 ^ zeros := by positivity
    rw [pow_succ, ← mul_assoc, List.replicate_succ', ← List.append_assoc, ← ih,
      Nat.toDigits_of_base_le (by decide) (by omega), Nat.mul_div_cancel _ (by decide),
      Nat.mul_mod_left]
    rfl

end Digits

/-! Trimming. -/

section Trim

variable {digits : List Char}

theorem exists_trimmed (digits : List Char) : ∃ front back,
    digits = List.replicate front '0' ++ trimmed digits ++ List.replicate back '0' := by
  obtain ⟨zero, hzero⟩ : ∃ zero : Char → Bool, zero = fun c => decide (c = '0') := ⟨_, rfl⟩
  have hmem {c : Char} (h : zero c) : c = '0' := by
    rw [hzero] at h
    exact of_decide_eq_true h
  have hfront : digits.takeWhile zero = List.replicate _ '0' :=
    List.eq_replicate_of_mem fun c hc => hmem (List.mem_takeWhile_imp hc)
  have hback : (digits.dropWhile zero).rtakeWhile zero = List.replicate _ '0' :=
    List.eq_replicate_of_mem fun c hc => hmem (List.mem_rtakeWhile_imp hc)
  refine ⟨(digits.takeWhile zero).length, ((digits.dropWhile zero).rtakeWhile zero).length, ?_⟩
  rw [← hfront, trimmed, ← hzero, List.append_assoc, ← hback, List.rdropWhile_append_rtakeWhile,
    List.takeWhile_append_dropWhile]

theorem rdropWhile_append_zeros (back : ℕ) :
    (digits ++ List.replicate back '0').rdropWhile (· = '0') = digits.rdropWhile (· = '0') := by
  induction back with
  | zero => rw [List.replicate_zero, List.append_nil]
  | succ back ih =>
    rw [List.replicate_succ', ← List.append_assoc, List.rdropWhile_concat_pos _ _ _ rfl, ih]

theorem length_trimmed_le (core : List Char) (front back : ℕ) :
    (trimmed (List.replicate front '0' ++ core ++ List.replicate back '0')).length ≤ core.length := by
  have hzeros (k : ℕ) : ∀ c ∈ List.replicate k '0', decide (c = '0') = true :=
    fun c hc => decide_eq_true (List.eq_of_mem_replicate hc)
  rw [trimmed, List.append_assoc, List.dropWhile_append_of_pos (hzeros front), List.dropWhile_append]
  split
  · rw [List.dropWhile_eq_nil_iff.2 (hzeros back)]
    exact Nat.zero_le _
  · rw [rdropWhile_append_zeros]
    exact (List.rdropWhile_prefix ..).length_le.trans (List.dropWhile_suffix _).length_le

theorem exists_trimmed_number (n : ℕ) : ∃ m t,
    n = m * 10 ^ t ∧ m < 10 ^ (trimmed (Nat.toDigits 10 n)).length := by
  obtain ⟨front, back, hsplit⟩ := exists_trimmed (Nat.toDigits 10 n)
  have hdigits : ∀ c ∈ trimmed (Nat.toDigits 10 n), c.isDigit := by
    intro c hc
    refine Nat.isDigit_of_mem_toDigits (b := 10) (n := n) (by decide) (by decide) ?_
    rw [hsplit]
    exact List.mem_append_left _ (List.mem_append_right _ hc)
  refine ⟨Nat.ofDigitChars 10 (trimmed (Nat.toDigits 10 n)) 0, back, ?_, ?_⟩
  · rw [← ofDigitChars_append_zeros]
    conv_lhs => rw [← Nat.ofDigitChars_ten_toDigits (n := n), hsplit, List.append_assoc,
      Nat.ofDigitChars_append, Nat.ofDigitChars_replicate_zero, Nat.mul_zero]
  · have hlt := ofDigitChars_lt hdigits 0
    rwa [Nat.zero_add, Nat.one_mul] at hlt

end Trim

/-! Reading what is written. -/

section Read

variable {whole decimals tail : List Char}

theorem ne_of_mem_mantissa (hd : ∀ c ∈ whole ++ decimals, c.isDigit) {c : Char}
    (hc : c ∈ mantissa whole decimals) : c ≠ 'e' := by
  have hdigit {c : Char} (h : c ∈ whole ++ decimals) : c ≠ 'e' := ne_of_isDigit (hd c h) rfl
  rcases List.mem_append.1 hc with hw | hrest
  · exact hdigit (List.mem_append_left _ hw)
  split at hrest
  · exact nomatch hrest
  · rcases List.mem_cons.1 hrest with rfl | hdec
    · decide
    · exact hdigit (List.mem_append_right _ hdec)

theorem mantissa_append (hd : ∀ c ∈ whole ++ decimals, c.isDigit)
    (ht : tail = [] ∨ ∃ rest, tail = 'e' :: rest) :
    (mantissa whole decimals ++ tail).takeWhile (· ≠ 'e') = mantissa whole decimals ∧
      (mantissa whole decimals ++ tail).dropWhile (· ≠ 'e') = tail := by
  have hm : ∀ c ∈ mantissa whole decimals, decide (c ≠ 'e') = true :=
    fun c hc => decide_eq_true (ne_of_mem_mantissa hd hc)
  rw [List.takeWhile_append_of_pos hm, List.dropWhile_append_of_pos hm]
  rcases ht with rfl | ⟨rest, rfl⟩ <;> exact ⟨List.append_nil _, rfl⟩

theorem mantissa_point (hd : ∀ c ∈ whole ++ decimals, c.isDigit) :
    (mantissa whole decimals).takeWhile (· ≠ '.') = whole ∧
      ((mantissa whole decimals).dropWhile (· ≠ '.')).tail = decimals := by
  have hw : ∀ c ∈ whole, decide (c ≠ '.') = true :=
    fun c hc => decide_eq_true (ne_of_isDigit (hd c (List.mem_append_left _ hc)) rfl)
  rw [mantissa, List.takeWhile_append_of_pos hw, List.dropWhile_append_of_pos hw]
  split
  · next h => exact ⟨List.append_nil _, h.symm⟩
  · exact ⟨List.append_nil _, rfl⟩

theorem read?_mantissa (hw : whole ≠ []) (hd : ∀ c ∈ whole ++ decimals, c.isDigit)
    (ht : tail = [] ∨ ∃ rest, tail = 'e' :: rest) :
    read? (mantissa whole decimals ++ tail) = (exponentOf? tail).map fun e : ℤ =>
      (Nat.ofDigitChars 10 (whole ++ decimals) 0 : ℚ) * 10 ^ (e - (decimals.length : ℤ)) := by
  have hne : whole ++ decimals ≠ [] := List.append_ne_nil_of_left_ne_nil hw _
  unfold read?
  dsimp only
  rw [(mantissa_append hd ht).1, (mantissa_append hd ht).2, (mantissa_point hd).1,
    (mantissa_point hd).2, natOf?_eq_some hne hd]
  rfl

theorem significant_mantissa (hd : ∀ c ∈ whole ++ decimals, c.isDigit)
    (ht : tail = [] ∨ ∃ rest, tail = 'e' :: rest) :
    significant (mantissa whole decimals ++ tail) = (trimmed (whole ++ decimals)).length := by
  have hw : whole.filter Char.isDigit = whole :=
    List.filter_eq_self.2 fun c hc => hd c (List.mem_append_left _ hc)
  have hdec : decimals.filter Char.isDigit = decimals :=
    List.filter_eq_self.2 fun c hc => hd c (List.mem_append_right _ hc)
  rw [significant, (mantissa_append hd ht).1, mantissa, List.filter_append, hw]
  split
  · next h => rw [h, List.filter_nil]
  · rw [List.filter_cons_of_neg (by decide), hdec]

theorem significant_toDigits (n : ℕ) :
    significant (Nat.toDigits 10 n) = (trimmed (Nat.toDigits 10 n)).length := by
  have hd : ∀ c ∈ Nat.toDigits 10 n ++ [], c.isDigit := by
    intro c hc
    rw [List.append_nil] at hc
    exact Nat.isDigit_of_mem_toDigits (by decide) (by decide) hc
  have hs := significant_mantissa hd (.inl rfl)
  rwa [mantissa, if_pos rfl, List.append_nil, List.append_nil] at hs

end Read

/-! The two written forms. -/

section Forms

variable {d : Decimal}

/-- A decimal is written so that it is read back, and with no more significant digits than it has. -/
structure Writes (body : List Char) (d : Decimal) : Prop where
  read : read? body = some d.value
  significant_le : significant body ≤ (Nat.toDigits 10 d.digits).length

theorem exists_padded (places n zeros : ℕ) : ∃ front back,
    padded places (n * 10 ^ zeros) =
      List.replicate front '0' ++ Nat.toDigits 10 n ++ List.replicate back '0' := by
  rcases Nat.eq_zero_or_pos n with rfl | hn
  · refine ⟨places + 1 - (Nat.toDigits 10 0).length, 0, ?_⟩
    rw [Nat.zero_mul, List.replicate_zero, List.append_nil, padded, List.leftpad]
  · refine ⟨places + 1 - (Nat.toDigits 10 (n * 10 ^ zeros)).length, zeros, ?_⟩
    rw [padded, List.leftpad, List.append_assoc, ← toDigits_mul_ten_pow hn]

theorem writes_pointed {places n zeros : ℕ} (hp : places ≠ 0) (hd : d.digits = n)
    (he : d.exponent = (zeros : ℤ) - places) :
    ∃ body, pointed places (n * 10 ^ zeros) = String.ofList body ∧ Writes body d ∧
      IsPositional body := by
  obtain ⟨whole, decimals, htext, hall, hspells⟩ := exists_pointed places (n * 10 ^ zeros)
  have hlength := hspells.length_decimals
  have hne : decimals ≠ [] := List.ne_nil_of_length_pos (by omega)
  have hbody : whole ++ '.' :: decimals = mantissa whole decimals ++ [] := by
    rw [mantissa, if_neg hne, List.append_nil]
  refine ⟨whole ++ '.' :: decimals, htext, ⟨?_, ?_⟩, whole, decimals, _, rfl, hne, hlength ▸ hspells⟩
  · rw [hbody, read?_mantissa hspells.whole_ne_nil hspells.digits (.inl rfl), hspells.number, hlength,
      Decimal.value, hd, he, sub_eq_add_neg, zpow_add₀ (by norm_num), zpow_natCast, exponentOf?,
      Option.map_some, zero_sub]
    push_cast
    rw [mul_assoc]
  · obtain ⟨front, back, hpadded⟩ := exists_padded places n zeros
    rw [hbody, significant_mantissa hspells.digits (.inl rfl), hall, hpadded, hd]
    exact length_trimmed_le ..

theorem writes_positional (d : Decimal) : ∃ body, d.positional = String.ofList body ∧
    Writes body d ∧ IsPositional body := by
  unfold positional
  split
  · next h =>
    have hexponent : d.exponent = ((0 : ℕ) : ℤ) - d.exponent.natAbs := by omega
    have hw := writes_pointed (by omega) rfl hexponent
    rwa [pow_zero, Nat.mul_one] at hw
  · exact writes_pointed (by decide) rfl (by omega)

theorem getLast?_toDigits {n : ℕ} (h : n % 10 ≠ 0) : (Nat.toDigits 10 n).getLast? ≠ some '0' := by
  have hlast : (Nat.toDigits 10 n).getLast? = some (n % 10).digitChar := by
    rcases Nat.lt_or_ge n 10 with hlt | hge
    · rw [Nat.toDigits_of_lt_base hlt, Nat.mod_eq_of_lt hlt]
      rfl
    · rw [Nat.toDigits_of_base_le (by decide) hge, List.getLast?_concat]
  rw [hlast]
  exact fun hzero => h (Nat.digitChar_eq_zero.1 (Option.some.inj hzero))

theorem scientific_eq {first : Char} {rest : List Char}
    (h : Nat.toDigits 10 d.digits = first :: rest) :
    d.scientific = String.ofList
      (mantissa [first] rest ++ 'e' :: (toString (d.exponent + rest.length)).toList) := by
  apply String.toList_injective
  unfold scientific
  rw [h]
  dsimp only
  rw [String.toList_append, String.toList_append, String.toList_ofList, String.toList_ofList,
    String.toList_ofList, List.append_assoc]
  cases rest <;> rfl

theorem writes_scientific (h : d.digits % 10 ≠ 0) : ∃ body, d.scientific = String.ofList body ∧
    Writes body d ∧ IsScientific body := by
  obtain ⟨first, rest, hdigits⟩ : ∃ first rest, Nat.toDigits 10 d.digits = first :: rest :=
    List.exists_cons_of_ne_nil Nat.toDigits_ne_nil
  have hisDigit : ∀ c ∈ [first] ++ rest, c.isDigit := by
    intro c hc
    rw [List.singleton_append, ← hdigits] at hc
    exact Nat.isDigit_of_mem_toDigits (by decide) (by decide) hc
  obtain ⟨tail, htail⟩ : ∃ tail, tail = 'e' :: (toString (d.exponent + rest.length)).toList :=
    ⟨_, rfl⟩
  have hhead : tail = [] ∨ ∃ rest, tail = 'e' :: rest := .inr ⟨_, htail⟩
  have hnumber : Nat.ofDigitChars 10 ([first] ++ rest) 0 = d.digits := by
    rw [List.singleton_append, ← hdigits, Nat.ofDigitChars_ten_toDigits]
  refine ⟨mantissa [first] rest ++ tail, ?_, ⟨?_, ?_⟩, first, rest, _, by rw [htail], hisDigit,
    ?_, ?_⟩
  · rw [scientific_eq hdigits, htail]
  · rw [read?_mantissa (List.cons_ne_nil _ _) hisDigit hhead, hnumber, htail, exponentOf?,
      intOf?_toString, Option.map_some, Decimal.value, add_sub_cancel_right]
  · rw [significant_mantissa hisDigit hhead, hdigits]
    have hle := length_trimmed_le ([first] ++ rest) 0 0
    rwa [List.replicate_zero, List.nil_append, List.append_nil] at hle
  · rintro rfl
    have hzero : d.digits = 0 := eq_zero_of_head? (by rw [hdigits]; rfl)
    omega
  · intro hlast
    refine getLast?_toDigits h ?_
    rw [hdigits, List.getLast?_cons, hlast]
    rfl

end Forms

end ValueStorage.Decimal
