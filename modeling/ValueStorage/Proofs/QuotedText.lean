import Mathlib.Tactic.Common
import ValueStorage.Text.Quoted

/-! Reading a quoted text back. A character between the quotes is written as itself, by a name or by its
code point, and is read as itself in each case. Which characters count as printable only chooses
among the three. -/

namespace ValueStorage.Quoted

variable {c : Char} {rest : List Char}

inductive Writes (c : Char) : List Char → Prop
  | self (hquote : c ≠ '"') (hslash : c ≠ '\\') : Writes c [c]
  | named {name : Char} (hname : named? name = some c) : Writes c ['\\', name]
  | code : Writes c (escapeCode c)

theorem writes_escape (c : Char) : Writes c (escape c) := by
  unfold escape
  split_ifs with hnul htab hreturn hnewline hslash hquote hcode
  · rw [hnul]
    exact .named rfl
  · rw [htab]
    exact .named rfl
  · rw [hreturn]
    exact .named rfl
  · rw [hnewline]
    exact .named rfl
  · rw [hslash]
    exact .named rfl
  · rw [hquote]
    exact .named rfl
  · exact .code
  · exact .self hquote hslash

/-! Escapes by code point. -/

theorem digit?_digitChar {k : Nat} (h : k < 16) :
    digit? k.digitChar = some k ∧ k.digitChar ≠ '\x7d' := by
  revert k
  decide

theorem unescape?_digit {n k : Nat} (h : k < 16) :
    unescape? (.digits n) (k.digitChar :: rest) = unescape? (.digits (16 * n + k)) rest := by
  obtain ⟨hdigit, hbrace⟩ := digit?_digitChar h
  rw [unescape?, if_neg hbrace, hdigit]
  rfl

theorem unescape?_toDigits (n : Nat) (rest : List Char) :
    unescape? (.digits 0) (Nat.toDigits 16 n ++ rest) = unescape? (.digits n) rest := by
  -- by the last digit of the number, which is the one read last
  induction n using Nat.strongRecOn generalizing rest with
  | ind n ih =>
    rcases Nat.lt_or_ge n 16 with hlt | hge
    · rw [Nat.toDigits_of_lt_base hlt, List.singleton_append, unescape?_digit hlt, Nat.mul_zero,
        Nat.zero_add]
    · rw [Nat.toDigits_of_base_le (by decide) hge, List.append_assoc, List.singleton_append,
        ih (n / 16) (by omega), unescape?_digit (Nat.mod_lt _ (by decide)), Nat.div_add_mod]

/-! Whole texts. -/

theorem Writes.unescape? {written : List Char} (h : Writes c written) (rest : List Char) :
    unescape? .plain (written ++ rest) = (unescape? .plain rest).map (c :: ·) := by
  cases h with
  | self hquote hslash =>
    rw [List.singleton_append, Quoted.unescape?, if_neg hquote, if_neg hslash]
  | @named name hname =>
    have hu : name ≠ 'u' := by
      rintro rfl
      exact nomatch hname
    change Quoted.unescape? .slash (name :: rest) = _
    rw [Quoted.unescape?, if_neg hu, hname]
    rfl
  | code =>
    have hvalid : c.toNat.isValidChar := c.valid
    rw [escapeCode, List.append_assoc, List.append_assoc]
    change Quoted.unescape? (.digits 0) (Nat.toDigits 16 c.toNat ++ '\x7d' :: rest) = _
    rw [unescape?_toDigits, Quoted.unescape?, if_pos rfl, if_pos hvalid, Char.ofNat_toNat]

theorem unescape?_flatMap {write : Char → List Char} (h : ∀ c, Writes c (write c))
    (text : List Char) : unescape? .plain (text.flatMap write ++ ['"']) = some text := by
  induction text with
  | nil => rfl
  | cons c text ih =>
    rw [List.flatMap_cons, List.append_assoc, (h c).unescape?, ih]
    rfl

theorem unquote?_quote (text : String) : unquote? (quote text) = some text := by
  rw [unquote?, quote, String.toList_ofList]
  change (unescape? .plain (text.toList.flatMap escape ++ ['"'])).map String.ofList = some text
  rw [unescape?_flatMap writes_escape, Option.map_some, String.ofList_toList]

theorem quote_injective : Function.Injective quote := by
  intro first second h
  have hread := unquote?_quote first
  rw [h, unquote?_quote second] at hread
  exact (Option.some.inj hread).symm

end ValueStorage.Quoted
