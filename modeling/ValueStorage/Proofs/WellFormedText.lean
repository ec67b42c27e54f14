import Mathlib.Tactic.Common
import ValueStorage.Text.Utf8

/-! Which byte strings are text. The sequences that stand for a character are given by the ranges of
their bytes; a byte string is text if it is put together from them. The reader finds no hole in it
exactly then, and encoding what it reads gives the bytes again. -/

namespace ValueStorage.Utf8

def Within (low high : Nat) (b : UInt8) : Prop := low ≤ b.toNat ∧ b.toNat ≤ high

def Tail : UInt8 → Prop := Within 0x80 0xBF

/-- The well-formed sequences of one to four bytes. The second byte is restricted after `E0` and `F0`,
where a shorter sequence would do, after `ED`, where the surrogates are, and after `F4`, where the
code points end. -/
inductive Sequence : List UInt8 → Prop
  | one {a} (ha : Within 0x00 0x7F a) : Sequence [a]
  | two {a b} (ha : Within 0xC2 0xDF a) (hb : Tail b) : Sequence [a, b]
  | threeE0 {a b c} (ha : Within 0xE0 0xE0 a) (hb : Within 0xA0 0xBF b) (hc : Tail c) :
      Sequence [a, b, c]
  | threeE1 {a b c} (ha : Within 0xE1 0xEC a) (hb : Tail b) (hc : Tail c) : Sequence [a, b, c]
  | threeED {a b c} (ha : Within 0xED 0xED a) (hb : Within 0x80 0x9F b) (hc : Tail c) :
      Sequence [a, b, c]
  | threeEE {a b c} (ha : Within 0xEE 0xEF a) (hb : Tail b) (hc : Tail c) : Sequence [a, b, c]
  | fourF0 {a b c d} (ha : Within 0xF0 0xF0 a) (hb : Within 0x90 0xBF b) (hc : Tail c)
      (hd : Tail d) : Sequence [a, b, c, d]
  | fourF1 {a b c d} (ha : Within 0xF1 0xF3 a) (hb : Tail b) (hc : Tail c) (hd : Tail d) :
      Sequence [a, b, c, d]
  | fourF4 {a b c d} (ha : Within 0xF4 0xF4 a) (hb : Within 0x80 0x8F b) (hc : Tail c)
      (hd : Tail d) : Sequence [a, b, c, d]

inductive WellFormed : List UInt8 → Prop
  | nil : WellFormed []
  | append {sequence rest} (hs : Sequence sequence) (hr : WellFormed rest) :
      WellFormed (sequence ++ rest)

theorem Sequence.wellFormed {bytes : List UInt8} (h : Sequence bytes) : WellFormed bytes := by
  have hw : WellFormed (bytes ++ []) := .append h .nil
  rwa [List.append_nil] at hw

theorem WellFormed.append_wellFormed {first rest : List UInt8} (hf : WellFormed first)
    (hr : WellFormed rest) : WellFormed (first ++ rest) := by
  induction hf with
  | nil => exact hr
  | append hs _ ih =>
    rw [List.append_assoc]
    exact .append hs ih

/-! Characters and the sequences that stand for them. -/

open String (utf8EncodeChar)

section Encoding

variable {c : Char}

theorem encode_eq_flatMap (text : String) : encode text = text.toList.flatMap utf8EncodeChar := by
  conv_lhs => rw [← String.ofList_toList (s := text)]
  rw [encode, String.toUTF8_eq_toByteArray, String.toByteArray_ofList, List.utf8Encode,
    List.data_toByteArray]

theorem isScalar (c : Char) : c.toNat < 0xD800 ∨ 0xDFFF < c.toNat ∧ c.toNat < 0x110000 := c.valid

theorem encodeChar_one (h : c.toNat ≤ 0x7F) : utf8EncodeChar c = [UInt8.ofNat c.toNat] :=
  if_pos h

theorem encodeChar_two (hl : 0x7F < c.toNat) (hh : c.toNat ≤ 0x7FF) :
    utf8EncodeChar c = [UInt8.ofNat (0xC0 + c.toNat / 64), UInt8.ofNat (0x80 + c.toNat % 64)] := by
  have hlead : c.toNat / 64 % 32 + 0xC0 = 0xC0 + c.toNat / 64 := by omega
  have hlast : c.toNat % 64 + 0x80 = 0x80 + c.toNat % 64 := Nat.add_comm ..
  rw [← hlead, ← hlast]
  exact (if_neg (Nat.not_le.2 hl)).trans (if_pos hh)

theorem encodeChar_three (hl : 0x7FF < c.toNat) (hh : c.toNat ≤ 0xFFFF) :
    utf8EncodeChar c = [UInt8.ofNat (0xE0 + c.toNat / 4096),
      UInt8.ofNat (0x80 + c.toNat / 64 % 64), UInt8.ofNat (0x80 + c.toNat % 64)] := by
  have hlead : c.toNat / 4096 % 16 + 0xE0 = 0xE0 + c.toNat / 4096 := by omega
  rw [← hlead, Nat.add_comm 0x80, Nat.add_comm 0x80]
  have hone : ¬ c.toNat ≤ 0x7F := by omega
  exact (if_neg hone).trans ((if_neg (Nat.not_le.2 hl)).trans (if_pos hh))

theorem encodeChar_four (hl : 0xFFFF < c.toNat) :
    utf8EncodeChar c = [UInt8.ofNat (0xF0 + c.toNat / 262144),
      UInt8.ofNat (0x80 + c.toNat / 4096 % 64), UInt8.ofNat (0x80 + c.toNat / 64 % 64),
      UInt8.ofNat (0x80 + c.toNat % 64)] := by
  have hscalar := isScalar c
  have hlead : c.toNat / 262144 % 8 + 0xF0 = 0xF0 + c.toNat / 262144 := by omega
  rw [← hlead, Nat.add_comm 0x80, Nat.add_comm 0x80, Nat.add_comm 0x80]
  have hone : ¬ c.toNat ≤ 0x7F := by omega
  have htwo : ¬ c.toNat ≤ 0x7FF := by omega
  exact (if_neg hone).trans ((if_neg htwo).trans (if_neg (Nat.not_le.2 hl)))

theorem toNat_ofNat_of_scalar {n : Nat} (h : n < 0xD800 ∨ 0xDFFF < n ∧ n < 0x110000) :
    (Char.ofNat n).toNat = n := by
  have hvalid : n.isValidChar := h
  rw [Char.ofNat, dif_pos hvalid]
  rfl

theorem ofNat_eq_byte {n : Nat} {b : UInt8} (h : n = b.toNat) : UInt8.ofNat n = b := by
  rw [h, UInt8.ofNat_toNat]

theorem exists_char_one {a : UInt8} (ha : Within 0x00 0x7F a) :
    ∃ c, utf8EncodeChar c = [a] := by
  obtain ⟨_, ha⟩ := ha
  have hn := toNat_ofNat_of_scalar (n := a.toNat) (by omega)
  refine ⟨Char.ofNat a.toNat, ?_⟩
  rw [encodeChar_one (by omega), hn, UInt8.ofNat_toNat]

theorem exists_char_two {a b : UInt8} (ha : Within 0xC2 0xDF a) (hb : Tail b) :
    ∃ c, utf8EncodeChar c = [a, b] := by
  simp only [Tail, Within] at ha hb
  have hn := toNat_ofNat_of_scalar (n := (a.toNat - 0xC0) * 64 + (b.toNat - 0x80)) (by omega)
  refine ⟨Char.ofNat ((a.toNat - 0xC0) * 64 + (b.toNat - 0x80)),
    (encodeChar_two (by omega) (by omega)).trans ?_⟩
  rw [hn, ofNat_eq_byte (b := a) (by omega), ofNat_eq_byte (b := b) (by omega)]

theorem exists_char_three {a b c : UInt8} (ha : Within 0xE0 0xEF a) (hb : Tail b) (hc : Tail c)
    (hlow : a.toNat = 0xE0 → 0xA0 ≤ b.toNat) (hhigh : a.toNat = 0xED → b.toNat ≤ 0x9F) :
    ∃ d, utf8EncodeChar d = [a, b, c] := by
  simp only [Tail, Within] at ha hb hc
  have hn := toNat_ofNat_of_scalar
    (n := (a.toNat - 0xE0) * 4096 + (b.toNat - 0x80) * 64 + (c.toNat - 0x80)) (by omega)
  refine ⟨Char.ofNat ((a.toNat - 0xE0) * 4096 + (b.toNat - 0x80) * 64 + (c.toNat - 0x80)),
    (encodeChar_three (by omega) (by omega)).trans ?_⟩
  rw [hn, ofNat_eq_byte (b := a) (by omega), ofNat_eq_byte (b := b) (by omega),
    ofNat_eq_byte (b := c) (by omega)]

theorem exists_char_four {a b c d : UInt8} (ha : Within 0xF0 0xF4 a) (hb : Tail b) (hc : Tail c)
    (hd : Tail d) (hlow : a.toNat = 0xF0 → 0x90 ≤ b.toNat)
    (hhigh : a.toNat = 0xF4 → b.toNat ≤ 0x8F) :
    ∃ e, utf8EncodeChar e = [a, b, c, d] := by
  simp only [Tail, Within] at ha hb hc hd
  have hn := toNat_ofNat_of_scalar
    (n := (a.toNat - 0xF0) * 262144 + (b.toNat - 0x80) * 4096 + (c.toNat - 0x80) * 64 +
      (d.toNat - 0x80)) (by omega)
  refine ⟨Char.ofNat ((a.toNat - 0xF0) * 262144 + (b.toNat - 0x80) * 4096 + (c.toNat - 0x80) * 64 +
    (d.toNat - 0x80)), (encodeChar_four (by omega)).trans ?_⟩
  rw [hn, ofNat_eq_byte (b := a) (by omega), ofNat_eq_byte (b := b) (by omega),
    ofNat_eq_byte (b := c) (by omega), ofNat_eq_byte (b := d) (by omega)]

theorem Within.mono {low high low' high' : Nat} {b : UInt8} (h : Within low high b)
    (hl : low' ≤ low) (hh : high ≤ high') : Within low' high' b :=
  ⟨Nat.le_trans hl h.1, Nat.le_trans h.2 hh⟩

theorem Sequence.exists_char {bytes : List UInt8} (h : Sequence bytes) :
    ∃ c, utf8EncodeChar c = bytes := by
  cases h with
  | one ha => exact exists_char_one ha
  | two ha hb => exact exists_char_two ha hb
  | threeE0 ha hb hc | threeE1 ha hb hc | threeED ha hb hc | threeEE ha hb hc =>
    have ha' := ha
    have hb' := hb
    simp only [Tail, Within] at ha' hb'
    exact exists_char_three (ha.mono (by decide) (by decide)) (hb.mono (by decide) (by decide)) hc
      (by omega) (by omega)
  | fourF0 ha hb hc hd | fourF1 ha hb hc hd | fourF4 ha hb hc hd =>
    have ha' := ha
    have hb' := hb
    simp only [Tail, Within] at ha' hb'
    exact exists_char_four (ha.mono (by decide) (by decide)) (hb.mono (by decide) (by decide)) hc hd
      (by omega) (by omega)

theorem lead_two {n : Nat} (hl : 2 ≤ n) (hh : n < 32) :
    lead (0xC0 + n) = .opens ⟨n, 1, 0x80, 0xBF⟩ := by
  unfold lead
  grind

theorem lead_three {n : Nat} (hn : n < 16) :
    lead (0xE0 + n) =
      .opens ⟨n, 2, if n = 0 then 0xA0 else 0x80, if n = 13 then 0x9F else 0xBF⟩ := by
  unfold lead
  grind

theorem lead_four {n : Nat} (hn : n < 5) :
    lead (0xF0 + n) =
      .opens ⟨n, 3, if n = 0 then 0x90 else 0x80, if n = 4 then 0x8F else 0xBF⟩ := by
  unfold lead
  grind

end Encoding

theorem toNat_byte {n : Nat} (h : n < 256) : (UInt8.ofNat n).toNat = n :=
  UInt8.toNat_ofNat_of_lt' h

theorem toNat_tail_byte (n : Nat) : (UInt8.ofNat (0x80 + n % 64)).toNat = 0x80 + n % 64 :=
  toNat_byte (by omega)

theorem tail_byte (n : Nat) : Within 0x80 0xBF (UInt8.ofNat (0x80 + n % 64)) := by
  rw [Within, toNat_tail_byte]
  omega

theorem bits_byte (n : Nat) : (UInt8.ofNat (0x80 + n % 64)).toNat - 0x80 = n % 64 := by
  rw [toNat_tail_byte, Nat.add_sub_cancel_left]

namespace Reader

variable {ps : Array Piece}

theorem feed_afresh (b : UInt8) : feed ⟨ps, none⟩ b = afresh ps b.toNat := rfl

theorem feed_whole {b : UInt8} (h : b.toNat < 0x80) :
    feed ⟨ps, none⟩ b = ⟨ps.push (some (Char.ofNat b.toNat)), none⟩ := by
  rw [feed_afresh, afresh, lead, if_pos h]

theorem feed_opens {b : UInt8} {p : Pending} (h : lead b.toNat = .opens p) :
    feed ⟨ps, none⟩ b = ⟨ps, some p⟩ := by
  rw [feed_afresh, afresh, h]

theorem feed_more {bits lacking low high : Nat} {b : UInt8} (h : Within low high b) :
    feed ⟨ps, some ⟨bits, lacking + 2, low, high⟩⟩ b =
      ⟨ps, some ⟨bits * 64 + (b.toNat - 0x80), lacking + 1, 0x80, 0xBF⟩⟩ :=
  (if_pos h).trans (if_neg (show lacking + 2 ≠ 1 by omega))

theorem feed_last {bits low high : Nat} {b : UInt8} (h : Within low high b) :
    feed ⟨ps, some ⟨bits, 1, low, high⟩⟩ b =
      ⟨ps.push (some (Char.ofNat (bits * 64 + (b.toNat - 0x80)))), none⟩ :=
  (if_pos h).trans (if_pos rfl)

theorem feed_misfit {p : Pending} {b : UInt8} (h : ¬ Within p.low p.high b) :
    feed ⟨ps, some p⟩ b = afresh (ps.push none) b.toNat := if_neg h

theorem foldl_feed_encodeChar (c : Char) :
    (utf8EncodeChar c).foldl feed ⟨ps, none⟩ = ⟨ps.push (some c), none⟩ := by
  have hscalar := isScalar c
  have hself : Char.ofNat c.toNat = c := Char.ofNat_toNat c
  rcases Nat.lt_or_ge 0xFFFF c.toNat with hfour | hle
  · have hn : c.toNat / 262144 < 5 := by omega
    have hlead := lead_four hn
    rw [← toNat_byte (show 0xF0 + c.toNat / 262144 < 256 by omega)] at hlead
    have hsecond : Within (if c.toNat / 262144 = 0 then 0x90 else 0x80)
        (if c.toNat / 262144 = 4 then 0x8F else 0xBF)
        (UInt8.ofNat (0x80 + c.toNat / 4096 % 64)) := by
      rw [Within, toNat_tail_byte]
      grind
    have hbits : ((c.toNat / 262144 * 64 + c.toNat / 4096 % 64) * 64 + c.toNat / 64 % 64) * 64 +
        c.toNat % 64 = c.toNat := by omega
    rw [encodeChar_four hfour]
    simp only [List.foldl_cons, List.foldl_nil]
    rw [feed_opens hlead, feed_more hsecond, feed_more (tail_byte _), feed_last (tail_byte _)]
    simp only [bits_byte, hbits, hself]
  rcases Nat.lt_or_ge 0x7FF c.toNat with hthree | hle
  · have hn : c.toNat / 4096 < 16 := by omega
    have hlead := lead_three hn
    rw [← toNat_byte (show 0xE0 + c.toNat / 4096 < 256 by omega)] at hlead
    have hsecond : Within (if c.toNat / 4096 = 0 then 0xA0 else 0x80)
        (if c.toNat / 4096 = 13 then 0x9F else 0xBF)
        (UInt8.ofNat (0x80 + c.toNat / 64 % 64)) := by
      rw [Within, toNat_tail_byte]
      grind
    have hbits : (c.toNat / 4096 * 64 + c.toNat / 64 % 64) * 64 + c.toNat % 64 = c.toNat := by
      omega
    rw [encodeChar_three hthree hle]
    simp only [List.foldl_cons, List.foldl_nil]
    rw [feed_opens hlead, feed_more hsecond, feed_last (tail_byte _)]
    simp only [bits_byte, hbits, hself]
  rcases Nat.lt_or_ge 0x7F c.toNat with htwo | hle
  · have hlead := lead_two (show 2 ≤ c.toNat / 64 by omega) (by omega)
    rw [← toNat_byte (show 0xC0 + c.toNat / 64 < 256 by omega)] at hlead
    have hbits : c.toNat / 64 * 64 + c.toNat % 64 = c.toNat := by omega
    rw [encodeChar_two htwo hle]
    simp only [List.foldl_cons, List.foldl_nil]
    rw [feed_opens hlead, feed_last (tail_byte _), bits_byte, hbits, hself]
  · have hbyte : (UInt8.ofNat c.toNat).toNat = c.toNat := toNat_byte (by omega)
    have hsmall : (UInt8.ofNat c.toNat).toNat < 0x80 := by omega
    rw [encodeChar_one hle, List.foldl_cons, List.foldl_nil, feed_whole hsmall, hbyte, hself]

end Reader

def Completes (p : Pending) (rest : List UInt8) : Prop :=
  ∃ next more, rest = next :: more ∧ Within p.low p.high next ∧ more.length + 1 = p.lacking ∧
    ∀ b ∈ more, Tail b

theorem sequence_of_whole {a : UInt8} {c : Char} (h : lead a.toNat = .whole c) : Sequence [a] := by
  unfold lead at h
  split_ifs at h with hone
  exact .one ⟨Nat.zero_le _, by omega⟩

theorem exists_tail {more : List UInt8} (hl : more.length + 1 = 2) (ht : ∀ b ∈ more, Tail b) :
    ∃ c, more = [c] ∧ Tail c := by
  obtain ⟨c, rfl⟩ := List.length_eq_one_iff.1 (Nat.succ.inj hl)
  exact ⟨c, rfl, ht c (List.mem_singleton_self c)⟩

theorem exists_tails {more : List UInt8} (hl : more.length + 1 = 3) (ht : ∀ b ∈ more, Tail b) :
    ∃ c d, more = [c, d] ∧ Tail c ∧ Tail d := by
  match more, hl with
  | [c, d], _ => exact ⟨c, d, rfl, ht c (List.mem_cons_self ..), ht d (by simp)⟩

theorem sequence_of_opens {a : UInt8} {p : Pending} (h : lead a.toNat = .opens p)
    {rest : List UInt8} (hr : Completes p rest) : Sequence (a :: rest) := by
  obtain ⟨b, more, rfl, hb, hl, ht⟩ := hr
  -- one case for each line of the table
  unfold lead at h
  split at h
  · cases h
  split at h
  · cases h
  split at h
  · obtain rfl := Lead.opens.inj h
    obtain rfl := List.eq_nil_of_length_eq_zero (Nat.succ.inj hl)
    exact .two ⟨by omega, by omega⟩ hb
  split at h
  · obtain rfl := Lead.opens.inj h
    obtain ⟨c, rfl, hc⟩ := exists_tail hl ht
    exact .threeE0 ⟨by omega, by omega⟩ hb hc
  split at h
  · obtain rfl := Lead.opens.inj h
    obtain ⟨c, rfl, hc⟩ := exists_tail hl ht
    exact .threeED ⟨by omega, by omega⟩ hb hc
  split at h
  · obtain rfl := Lead.opens.inj h
    obtain ⟨c, rfl, hc⟩ := exists_tail hl ht
    rcases Nat.lt_or_ge a.toNat 0xED with hlt | hge
    · exact .threeE1 ⟨by omega, by omega⟩ hb hc
    · exact .threeEE ⟨by omega, by omega⟩ hb hc
  split at h
  · obtain rfl := Lead.opens.inj h
    obtain ⟨c, d, rfl, hc, hd⟩ := exists_tails hl ht
    exact .fourF0 ⟨by omega, by omega⟩ hb hc hd
  split at h
  · obtain rfl := Lead.opens.inj h
    obtain ⟨c, d, rfl, hc, hd⟩ := exists_tails hl ht
    exact .fourF1 ⟨by omega, by omega⟩ hb hc hd
  split at h
  · obtain rfl := Lead.opens.inj h
    obtain ⟨c, d, rfl, hc, hd⟩ := exists_tails hl ht
    exact .fourF4 ⟨by omega, by omega⟩ hb hc hd
  · cases h

inductive Progress : Option Pending → List UInt8 → Prop
  | between {text} (h : WellFormed text) : Progress none text
  | within {p text begun} (h : WellFormed text)
      (hb : ∀ rest, Completes p rest → Sequence (begun ++ rest)) : Progress (some p) (text ++ begun)

theorem progress_afresh {text : List UInt8} (ht : WellFormed text) {ps : Array Piece} {a : UInt8}
    (hnone : none ∉ (Reader.afresh ps a.toNat).pieces) :
    Progress (Reader.afresh ps a.toNat).pending (text ++ [a]) := by
  unfold Reader.afresh at hnone ⊢
  cases h : lead a.toNat with
  | whole c => exact .between (ht.append_wellFormed (sequence_of_whole h).wellFormed)
  | opens p => exact .within ht fun rest hr => sequence_of_opens h hr
  | illFormed =>
    rw [h] at hnone
    exact absurd (Array.mem_push_self) hnone

namespace Reader

variable {piece : Piece}

theorem mem_afresh {ps : Array Piece} (h : piece ∈ ps) (n : Nat) :
    piece ∈ (afresh ps n).pieces := by
  unfold afresh
  cases lead n with
  | opens p => exact h
  | whole c => exact Array.mem_push_of_mem _ h
  | illFormed => exact Array.mem_push_of_mem _ h

theorem mem_feed {r : Reader} (h : piece ∈ r.pieces) (b : UInt8) : piece ∈ (r.feed b).pieces := by
  unfold feed
  dsimp only
  split
  · exact mem_afresh h _
  · split
    · split
      · exact Array.mem_push_of_mem _ h
      · exact h
    · exact mem_afresh (Array.mem_push_of_mem _ h) _

theorem mem_foldl_feed {r : Reader} (h : piece ∈ r.pieces) (bytes : List UInt8) :
    piece ∈ (bytes.foldl feed r).pieces := by
  induction bytes generalizing r with
  | nil => exact h
  | cons b bytes ih => exact ih (mem_feed h b)

end Reader

theorem Progress.feed {r : Reader} {read : List UInt8} (hp : Progress r.pending read) {b : UInt8}
    (hnone : none ∉ (r.feed b).pieces) : Progress (r.feed b).pending (read ++ [b]) := by
  obtain ⟨ps, pending⟩ := r
  cases hp with
  | between ht => exact progress_afresh ht hnone
  | @within p text begun ht hb =>
    by_cases hw : Within p.low p.high b
    · rw [List.append_assoc]
      by_cases hlast : p.lacking = 1
      · have hdone : Reader.feed ⟨ps, some p⟩ b =
            ⟨ps.push (some (Char.ofNat (p.bits * 64 + (b.toNat - 0x80)))), none⟩ :=
          (if_pos hw).trans (if_pos hlast)
        rw [hdone]
        exact .between (ht.append_wellFormed (hb [b] ⟨b, [], rfl, hw, hlast.symm, nofun⟩).wellFormed)
      · have hmore : Reader.feed ⟨ps, some p⟩ b =
            ⟨ps, some ⟨p.bits * 64 + (b.toNat - 0x80), p.lacking - 1, 0x80, 0xBF⟩⟩ :=
          (if_pos hw).trans (if_neg hlast)
        rw [hmore]
        refine .within ht fun rest hr => ?_
        obtain ⟨next, more, rfl, hnext, hl, htail⟩ := hr
        rw [List.append_assoc]
        refine hb _ ⟨b, next :: more, rfl, hw, ?_, List.forall_mem_cons.2 ⟨hnext, htail⟩⟩
        change more.length + 1 = p.lacking - 1 at hl
        rw [List.length_cons]
        omega
    -- the sequence under way has become a hole
    · rw [Reader.feed_misfit hw] at hnone
      exact absurd (Reader.mem_afresh Array.mem_push_self _) hnone

theorem Progress.foldl_feed {r : Reader} {read : List UInt8} (hp : Progress r.pending read)
    (bytes : List UInt8) (hnone : none ∉ (bytes.foldl Reader.feed r).pieces) :
    Progress (bytes.foldl Reader.feed r).pending (read ++ bytes) := by
  induction bytes generalizing r read with
  | nil =>
    rw [List.append_nil]
    exact hp
  | cons b bytes ih =>
    have hb : none ∉ (r.feed b).pieces := fun h => hnone (Reader.mem_foldl_feed h bytes)
    rw [List.append_cons]
    exact ih (hp.feed hb) hnone

theorem wellFormed_of_none_notMem {bytes : List UInt8} (h : none ∉ pieces bytes) :
    WellFormed bytes := by
  unfold pieces Reader.finish at h
  obtain ⟨r, hr⟩ : ∃ r, r = bytes.foldl Reader.feed Reader.start := ⟨_, rfl⟩
  rw [← hr] at h
  cases hp : r.pending with
  | some p =>
    rw [hp] at h
    exact absurd (by simp) h
  | none =>
    rw [hp] at h
    have hnone : none ∉ r.pieces := by simpa using h
    have hprogress := Progress.foldl_feed (r := .start) (.between .nil) bytes (hr ▸ hnone)
    rw [← hr, hp] at hprogress
    cases hprogress with
    | between ht => exact ht

/-! Reading what was encoded, and encoding what was read. -/

theorem foldl_feed_encode (text : List Char) (ps : Array Piece) :
    (text.flatMap utf8EncodeChar).foldl Reader.feed ⟨ps, none⟩ =
      ⟨ps ++ (text.map some).toArray, none⟩ := by
  induction text generalizing ps with
  | nil => simp
  | cons c text ih =>
    rw [List.flatMap_cons, List.foldl_append, Reader.foldl_feed_encodeChar, ih]
    simp

theorem pieces_encode (text : String) : pieces (encode text) = text.toList.map some := by
  rw [encode_eq_flatMap, pieces]
  change Reader.finish (List.foldl Reader.feed ⟨#[], none⟩ _) = _
  rw [foldl_feed_encode]
  simp [Reader.finish]

theorem WellFormed.exists_encode {bytes : List UInt8} (h : WellFormed bytes) :
    ∃ text, encode text = bytes := by
  induction h with
  | nil => exact ⟨"", by rw [encode_eq_flatMap]; rfl⟩
  | append hs _ ih =>
    obtain ⟨c, rfl⟩ := hs.exists_char
    obtain ⟨text, rfl⟩ := ih
    refine ⟨String.ofList (c :: text.toList), ?_⟩
    rw [encode_eq_flatMap, String.toList_ofList, encode_eq_flatMap, List.flatMap_cons]

theorem wellFormed_iff_none_notMem {bytes : List UInt8} :
    WellFormed bytes ↔ none ∉ pieces bytes := by
  refine ⟨fun h => ?_, wellFormed_of_none_notMem⟩
  obtain ⟨text, rfl⟩ := h.exists_encode
  simp [pieces_encode]

theorem wellFormed_encode (text : String) : WellFormed (encode text) := by
  rw [wellFormed_iff_none_notMem, pieces_encode]
  simp

theorem getD_some (text : List Char) :
    (text.map some).map (·.getD replacement) = text :=
  List.map_map.trans (List.map_id text)

theorem decodeLossy_encode (text : String) : decodeLossy (encode text) = text := by
  rw [decodeLossy, pieces_encode, getD_some, String.ofList_toList]

theorem decode?_encode (text : String) : decode? (encode text) = some text := by
  have hall : (text.toList.map some).all Option.isSome := by simp
  simp only [decode?, pieces_encode, getD_some, String.ofList_toList]
  exact if_pos hall

theorem decode?_eq_some {bytes : List UInt8} {text : String} :
    decode? bytes = some text ↔ encode text = bytes := by
  refine ⟨fun h => ?_, fun h => h ▸ decode?_encode text⟩
  unfold decode? at h
  dsimp only at h
  split_ifs at h with hall
  have hw : WellFormed bytes := by
    apply wellFormed_of_none_notMem
    intro hnone
    exact absurd (List.all_eq_true.1 hall none hnone) (by simp)
  obtain ⟨written, rfl⟩ := hw.exists_encode
  have hread : decode? (encode written) = some text := (if_pos hall).trans h
  rw [decode?_encode] at hread
  rw [Option.some.inj hread]

theorem exists_decode? {bytes : List UInt8} :
    (∃ text, decode? bytes = some text) ↔ WellFormed bytes := by
  constructor
  · rintro ⟨text, h⟩
    rw [← decode?_eq_some.1 h]
    exact wellFormed_encode text
  · intro h
    obtain ⟨text, rfl⟩ := h.exists_encode
    exact ⟨text, decode?_encode text⟩

theorem replacement_mem_decodeLossy {bytes : List UInt8} (h : decode? bytes = none) :
    replacement ∈ (decodeLossy bytes).toList := by
  have hw : ¬ WellFormed bytes := by
    intro hw
    obtain ⟨text, ht⟩ := exists_decode?.2 hw
    exact nomatch h.symm.trans ht
  have hnone : none ∈ pieces bytes := by
    rw [wellFormed_iff_none_notMem] at hw
    exact Classical.not_not.1 hw
  rw [decodeLossy, String.toList_ofList]
  exact List.mem_map.2 ⟨none, hnone, rfl⟩

end ValueStorage.Utf8
