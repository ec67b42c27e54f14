import ValueStorage.Proofs.WellFormedText
import ValueStorage.Value.Render

/-! Lossy text in parts. A reader knows of the bytes behind it only the sequence that is under way, and
no byte that begins well-formed text continues one. So bytes can be cut before or behind well-formed
text and displayed in parts: what is ill-formed takes nothing from the text beside it. Cut into
well-formed parts and ill-formed stretches, bytes of any kind have exactly one lossy text. -/

namespace ValueStorage.Utf8

namespace Reader

variable {r : Reader}

def prepend (r : Reader) (ps : Array Piece) : Reader := ⟨ps ++ r.pieces, r.pending⟩

theorem afresh_append (ps qs : Array Piece) (n : Nat) :
    afresh (ps ++ qs) n = (afresh qs n).prepend ps := by
  unfold afresh
  cases lead n <;> simp [prepend]

theorem feed_within {ps : Array Piece} {p : Pending} {b : UInt8} (h : Within p.low p.high b) :
    feed ⟨ps, some p⟩ b =
      if p.lacking = 1 then ⟨ps.push (some (Char.ofNat (p.bits * 64 + (b.toNat - 0x80)))), none⟩
      else ⟨ps, some ⟨p.bits * 64 + (b.toNat - 0x80), p.lacking - 1, 0x80, 0xBF⟩⟩ :=
  if_pos h

theorem feed_prepend (r : Reader) (ps : Array Piece) (b : UInt8) :
    (r.prepend ps).feed b = (r.feed b).prepend ps := by
  obtain ⟨qs, pending⟩ := r
  cases pending with
  | none => exact afresh_append ps qs b.toNat
  | some p =>
    by_cases hw : Within p.low p.high b
    · rw [prepend, feed_within hw, feed_within hw]
      split <;> simp [prepend]
    · rw [prepend, feed_misfit hw, feed_misfit hw, ← afresh_append, Array.push_append]

theorem foldl_feed_prepend (r : Reader) (ps : Array Piece) (bytes : List UInt8) :
    bytes.foldl feed (r.prepend ps) = (bytes.foldl feed r).prepend ps := by
  induction bytes generalizing r with
  | nil => rfl
  | cons b bytes ih => rw [List.foldl_cons, feed_prepend, ih, List.foldl_cons]

theorem finish_prepend (r : Reader) (ps : Array Piece) :
    (r.prepend ps).finish = ps.toList ++ r.finish := by
  obtain ⟨qs, pending⟩ := r
  cases pending <;> simp [finish, prepend]

/-! What may stand at a cut. -/

def Expects (r : Reader) : Prop := ∀ p, r.pending = some p → 0x80 ≤ p.low ∧ p.high ≤ 0xBF

theorem expects_of_none (hr : r.pending = none) : r.Expects := by
  intro p hp
  exact nomatch hr.symm.trans hp

end Reader

theorem lead_range {n : Nat} {p : Pending} (h : lead n = .opens p) :
    0x80 ≤ p.low ∧ p.low ≤ p.high ∧ p.high ≤ 0xBF ∧ 0 < p.lacking := by
  unfold lead at h
  split_ifs at h <;> obtain rfl := Lead.opens.inj h <;> simp only <;> omega

namespace Reader

variable {r : Reader}

theorem expects_afresh (ps : Array Piece) (n : Nat) : (afresh ps n).Expects := by
  unfold afresh
  cases hl : lead n with
  | opens q =>
    intro p hp
    cases hp
    obtain ⟨hlow, _, hhigh, _⟩ := lead_range hl
    exact ⟨hlow, hhigh⟩
  | whole c | illFormed => exact expects_of_none rfl

theorem expects_feed (r : Reader) (b : UInt8) : (r.feed b).Expects := by
  obtain ⟨ps, pending⟩ := r
  cases pending with
  | none => exact expects_afresh ps b.toNat
  | some p =>
    by_cases hw : Within p.low p.high b
    · rw [feed_within hw]
      split
      · exact expects_of_none rfl
      · intro q hq
        obtain rfl := Option.some.inj hq
        exact ⟨Nat.le_refl _, Nat.le_refl _⟩
    · rw [feed_misfit hw]
      exact expects_afresh _ _

theorem expects_foldl_feed (hr : r.Expects) (bytes : List UInt8) : (bytes.foldl feed r).Expects := by
  induction bytes generalizing r with
  | nil => exact hr
  | cons b bytes ih => exact ih (expects_feed r b)

def Cut (r : Reader) (b : UInt8) : Prop := ∀ p, r.pending = some p → ¬ Within p.low p.high b

theorem cut_of_expects (hr : r.Expects) {b : UInt8} (hb : ¬ Tail b) : r.Cut b := by
  intro p hp hw
  obtain ⟨hlow, hhigh⟩ := hr p hp
  exact hb (hw.mono hlow hhigh)

theorem cut_of_none (hr : r.pending = none) (b : UInt8) : r.Cut b := by
  intro p hp
  exact nomatch hr.symm.trans hp

theorem feed_of_cut {b : UInt8} (hb : r.Cut b) :
    r.feed b = (start.feed b).prepend r.finish.toArray := by
  obtain ⟨ps, pending⟩ := r
  cases pending with
  | none =>
    have hps := afresh_append ps #[] b.toNat
    rwa [Array.append_empty] at hps
  | some p =>
    have hps := afresh_append (ps.push none) #[] b.toNat
    rw [Array.append_empty] at hps
    rw [feed_misfit (hb p rfl)]
    exact hps

theorem finish_foldl_feed_of_cut {q : List UInt8} (hq : ∀ b ∈ q.head?, r.Cut b) :
    (q.foldl feed r).finish = r.finish ++ Utf8.pieces q := by
  cases q with
  | nil => exact (List.append_nil _).symm
  | cons b q =>
    rw [List.foldl_cons, feed_of_cut (hq b rfl), foldl_feed_prepend, finish_prepend, Utf8.pieces,
      List.foldl_cons]

end Reader

theorem WellFormed.pending_eq_none {bytes : List UInt8} (h : WellFormed bytes) :
    (bytes.foldl Reader.feed Reader.start).pending = none := by
  obtain ⟨text, rfl⟩ := h.exists_encode
  rw [encode_eq_flatMap, Reader.start, foldl_feed_encode]

theorem Sequence.head_not_tail {bytes : List UInt8} (h : Sequence bytes) :
    ∃ b rest, bytes = b :: rest ∧ ¬ Tail b := by
  cases h <;> refine ⟨_, _, rfl, ?_⟩ <;> simp only [Tail, Within] at * <;> omega

theorem WellFormed.head_not_tail {bytes : List UInt8} (h : WellFormed bytes) :
    ∀ b ∈ bytes.head?, ¬ Tail b := by
  cases h with
  | nil => exact nofun
  | append hs _ =>
    obtain ⟨b, rest, rfl, hb⟩ := hs.head_not_tail
    intro a ha
    cases ha
    exact hb

variable {p q : List UInt8}

theorem pieces_append (h : WellFormed p ∨ ∀ b ∈ q.head?, ¬ Tail b) :
    pieces (p ++ q) = pieces p ++ pieces q := by
  rw [pieces, List.foldl_append]
  refine Reader.finish_foldl_feed_of_cut fun b hb => ?_
  rcases h with hp | hq
  · exact Reader.cut_of_none hp.pending_eq_none b
  · have hr : (p.foldl Reader.feed Reader.start).Expects :=
      Reader.expects_foldl_feed (Reader.expects_of_none rfl) p
    exact Reader.cut_of_expects hr (hq b hb)

theorem decodeLossy_append (h : WellFormed p ∨ ∀ b ∈ q.head?, ¬ Tail b) :
    decodeLossy (p ++ q) = decodeLossy p ++ decodeLossy q := by
  rw [decodeLossy, pieces_append h, List.map_append, String.ofList_append]
  rfl

theorem encode_ne_nil {text : String} (h : text ≠ "") : encode text ≠ [] := by
  intro hnil
  have hread := decodeLossy_encode text
  rw [hnil] at hread
  exact h hread.symm

theorem decodeLossy_around {text : String} (h : text ≠ "") (p q : List UInt8) :
    decodeLossy (p ++ encode text ++ q) = decodeLossy p ++ text ++ decodeLossy q := by
  have hw : WellFormed (encode text) := wellFormed_encode text
  have hhead : ∀ b ∈ (encode text ++ q).head?, ¬ Tail b := by
    obtain ⟨b, bytes, hb⟩ := List.exists_cons_of_ne_nil (encode_ne_nil h)
    have hfirst := hw.head_not_tail
    rw [hb] at hfirst ⊢
    exact hfirst
  rw [List.append_assoc, decodeLossy_append (.inr hhead), decodeLossy_append (.inl hw),
    decodeLossy_encode, String.append_assoc]

/-! The text of bytes of any kind. An ill-formed stretch is as long as its bytes still begin a
well-formed sequence, and then the next byte does not go on with it, or it is a single byte with which
no sequence begins. -/

def Begins (bytes : List UInt8) : Prop :=
  bytes ≠ [] ∧ ∃ rest, rest ≠ [] ∧ Sequence (bytes ++ rest)

inductive Stretch : List UInt8 → List UInt8 → Prop
  | broken {x rest} (hx : Begins x)
      (hr : ∀ b ∈ rest.head?, ∀ more, ¬ Sequence (x ++ b :: more)) : Stretch x rest
  | stray {b rest} (hb : ∀ more, ¬ Sequence (b :: more)) : Stretch [b] rest

/-- Well-formed parts are shown as the text they encode, and each ill-formed stretch as one U+FFFD. -/
inductive Lossy : List UInt8 → String → Prop
  | nil : Lossy [] ""
  | text {text rest shown} (hr : Lossy rest shown) : Lossy (encode text ++ rest) (text ++ shown)
  | hole {x rest shown} (hx : Stretch x rest) (hr : Lossy rest shown) :
      Lossy (x ++ rest) ("\uFFFD" ++ shown)

theorem exists_opens {a : UInt8} {rest : List UInt8} (hs : Sequence (a :: rest)) (hr : rest ≠ []) :
    ∃ p, lead a.toNat = .opens p ∧ Completes p rest := by
  have above {base : Nat} (h : base ≤ a.toNat) : lead a.toNat = lead (base + (a.toNat - base)) := by
    rw [Nat.add_sub_of_le h]
  cases hs with
  | one ha => exact absurd rfl hr
  | two ha hb =>
    simp only [Within] at ha
    have hlead := (above (by omega)).trans (lead_two (n := a.toNat - 0xC0) (by omega) (by omega))
    exact ⟨_, hlead, _, [], rfl, hb, rfl, List.forall_mem_nil _⟩
  | threeE0 ha hb hc | threeE1 ha hb hc | threeED ha hb hc | threeEE ha hb hc =>
    simp only [Tail, Within] at ha hb
    have hlead := (above (by omega)).trans (lead_three (n := a.toNat - 0xE0) (by omega))
    refine ⟨_, hlead, _, [_], rfl, ?_, rfl, by simpa using hc⟩
    simp only [Within]
    grind
  | fourF0 ha hb hc hd | fourF1 ha hb hc hd | fourF4 ha hb hc hd =>
    simp only [Tail, Within] at ha hb
    have hlead := (above (by omega)).trans (lead_four (n := a.toNat - 0xF0) (by omega))
    refine ⟨_, hlead, _, [_, _], rfl, ?_, rfl, by simpa using ⟨hc, hd⟩⟩
    simp only [Within]
    grind

theorem sequence_cons_iff {a : UInt8} {p : Pending} (h : lead a.toNat = .opens p)
    {rest : List UInt8} : Sequence (a :: rest) ↔ Completes p rest := by
  refine ⟨fun hs => ?_, sequence_of_opens h⟩
  have hr : rest ≠ [] := by
    rintro rfl
    cases hs with
    | one ha =>
      have hsmall : a.toNat < 0x80 := Nat.lt_succ_of_le ha.2
      rw [lead, if_pos hsmall] at h
      cases h
  obtain ⟨q, hq, hc⟩ := exists_opens hs hr
  cases h.symm.trans hq
  exact hc

theorem completes_cons_iff {p : Pending} {b : UInt8} {rest : List UInt8} :
    Completes p (b :: rest) ↔
      Within p.low p.high b ∧ rest.length + 1 = p.lacking ∧ ∀ c ∈ rest, Tail c := by
  constructor
  · rintro ⟨_, _, ⟨⟩, h⟩
    exact h
  · exact fun h => ⟨b, rest, rfl, h⟩

theorem completes_cons_of_within {p : Pending} {b : UInt8} (hw : Within p.low p.high b)
    (hmore : p.lacking ≠ 1) (bits : Nat) (rest : List UInt8) :
    Completes p (b :: rest) ↔ Completes ⟨bits, p.lacking - 1, 0x80, 0xBF⟩ rest := by
  cases rest with
  | nil =>
    constructor
    · intro h
      exact absurd (completes_cons_iff.1 h).2.1.symm hmore
    · rintro ⟨_, _, ⟨⟩, _⟩
  | cons c rest =>
    rw [completes_cons_iff, completes_cons_iff, List.length_cons, List.forall_mem_cons]
    have hlacking : rest.length + 1 + 1 = p.lacking ↔ rest.length + 1 = p.lacking - 1 := by omega
    rw [hlacking]
    exact ⟨fun ⟨_, hl, hc, ht⟩ => ⟨hc, hl, ht⟩, fun ⟨hc, hl, ht⟩ => ⟨hw, hl, hc, ht⟩⟩

theorem exists_completion {p : Pending} {b : UInt8} (hw : Within p.low p.high b)
    (hp : 0 < p.lacking) : ∃ more, Completes p (b :: more) := by
  refine ⟨List.replicate (p.lacking - 1) 0x80, completes_cons_iff.2 ⟨hw, ?_, fun c hc => ?_⟩⟩
  · rw [List.length_replicate]
    omega
  · rw [List.eq_of_mem_replicate hc]
    exact ⟨by decide, by decide⟩

theorem foldl_feed_part {p : Pending} {x rest : List UInt8} (h : Completes p (x ++ rest))
    (hr : rest ≠ []) (ps : Array Piece) :
    ∃ q, x.foldl Reader.feed ⟨ps, some p⟩ = ⟨ps, some q⟩ ∧ 0 < q.lacking ∧
      ∀ more, Completes p (x ++ more) ↔ Completes q more := by
  induction x generalizing p with
  | nil =>
    obtain ⟨_, _, _, _, hl, _⟩ := h
    exact ⟨p, rfl, by omega, fun more => Iff.rfl⟩
  | cons b x ih =>
    rw [List.cons_append] at h
    obtain ⟨hw, hl, _⟩ := completes_cons_iff.1 h
    have hmore : p.lacking ≠ 1 := by
      have hpos : 0 < (x ++ rest).length := by
        rw [List.length_append]
        exact Nat.lt_add_left _ (List.length_pos_iff.2 hr)
      omega
    have hnext := completes_cons_of_within hw hmore (p.bits * 64 + (b.toNat - 0x80))
    obtain ⟨q, hq, hpos, hiff⟩ := ih ((hnext _).1 h)
    refine ⟨q, ?_, hpos, fun more => (hnext _).trans (hiff more)⟩
    rw [List.foldl_cons, Reader.feed_within hw, if_neg hmore]
    exact hq

theorem foldl_feed_begins {x : List UInt8} (hx : Begins x) :
    ∃ q, x.foldl Reader.feed Reader.start = ⟨#[], some q⟩ ∧ 0 < q.lacking ∧
      ∀ more, Sequence (x ++ more) ↔ Completes q more := by
  obtain ⟨hne, rest, hr, hs⟩ := hx
  obtain ⟨a, x, rfl⟩ := List.exists_cons_of_ne_nil hne
  obtain ⟨p, hp, hc⟩ := exists_opens hs (List.append_ne_nil_of_right_ne_nil x hr)
  obtain ⟨q, hq, hpos, hiff⟩ := foldl_feed_part hc hr #[]
  refine ⟨q, ?_, hpos, fun more => (sequence_cons_iff hp).trans (hiff more)⟩
  rw [List.foldl_cons, Reader.start, Reader.feed_opens hp]
  exact hq

theorem lead_of_stray {b : UInt8} (hb : ∀ more, ¬ Sequence (b :: more)) :
    lead b.toNat = .illFormed := by
  cases h : lead b.toNat with
  | illFormed => rfl
  | whole c => exact absurd (sequence_of_whole h) (hb [])
  | opens p =>
    obtain ⟨_, hle, hhigh, hpos⟩ := lead_range h
    have hlow : (UInt8.ofNat p.low).toNat = p.low := toNat_byte (by omega)
    have hw : Within p.low p.high (UInt8.ofNat p.low) := by
      rw [Within, hlow]
      exact ⟨Nat.le_refl _, hle⟩
    obtain ⟨more, hmore⟩ := exists_completion hw hpos
    exact absurd (sequence_of_opens h hmore) (hb _)

theorem pieces_stretch {x rest : List UInt8} (h : Stretch x rest) :
    pieces (x ++ rest) = none :: pieces rest := by
  rw [pieces, List.foldl_append]
  cases h with
  | broken hx hr =>
    obtain ⟨q, hq, hpos, hiff⟩ := foldl_feed_begins hx
    rw [hq, Reader.finish_foldl_feed_of_cut]
    · rfl
    · rintro b hb _ ⟨⟩ hw
      obtain ⟨more, hmore⟩ := exists_completion hw hpos
      exact hr b hb more ((hiff _).2 hmore)
  | @stray b rest hb =>
    have hfed : [b].foldl Reader.feed Reader.start = ⟨#[none], none⟩ := by
      change Reader.afresh #[] b.toNat = _
      rw [Reader.afresh, lead_of_stray hb]
      rfl
    rw [hfed, Reader.finish_foldl_feed_of_cut fun b _ => Reader.cut_of_none rfl b]
    rfl

theorem Lossy.eq_decodeLossy {bytes : List UInt8} {shown : String} (h : Lossy bytes shown) :
    decodeLossy bytes = shown := by
  induction h with
  | nil => rfl
  | text hr ih => rw [decodeLossy_append (.inl (wellFormed_encode _)), decodeLossy_encode, ih]
  | hole hx hr ih =>
    rw [← ih, decodeLossy, pieces_stretch hx, List.map_cons, String.ofList_cons]
    rfl

theorem exists_lossy (bytes : List UInt8) {x : List UInt8} (hx : x = [] ∨ Begins x) :
    ∃ shown, Lossy (x ++ bytes) shown := by
  -- the cases are those of the reader, which has the bytes of x under way
  induction bytes generalizing x with
  | nil =>
    rcases hx with rfl | hx
    · exact ⟨_, .nil⟩
    · exact ⟨_, .hole (.broken hx nofun) .nil⟩
  | cons b bytes ih =>
    obtain ⟨_, hbytes⟩ := ih (.inl rfl)
    have goes_on {x : List UInt8} {more} (hs : Sequence (x ++ b :: more)) :
        ∃ shown, Lossy (x ++ b :: bytes) shown := by
      rw [List.append_cons] at hs ⊢
      rcases eq_or_ne more [] with rfl | hmore
      · obtain ⟨text, htext⟩ := hs.wellFormed.exists_encode
        rw [List.append_nil] at htext
        rw [← htext]
        exact ⟨_, .text hbytes⟩
      · exact ih (.inr ⟨by simp, more, hmore, hs⟩)
    have afresh : ∃ shown, Lossy (b :: bytes) shown := by
      by_cases h : ∃ more, Sequence (b :: more)
      · obtain ⟨more, hs⟩ := h
        exact goes_on (x := []) hs
      · exact ⟨_, .hole (.stray (not_exists.1 h)) hbytes⟩
    rcases hx with rfl | hx
    · exact afresh
    · by_cases h : ∃ more, Sequence (x ++ b :: more)
      · obtain ⟨more, hs⟩ := h
        exact goes_on hs
      · obtain ⟨_, hrest⟩ := afresh
        refine ⟨_, .hole (.broken hx ?_) hrest⟩
        rintro _ ⟨⟩
        exact not_exists.1 h

theorem lossy_iff {bytes : List UInt8} {shown : String} :
    Lossy bytes shown ↔ decodeLossy bytes = shown := by
  refine ⟨Lossy.eq_decodeLossy, ?_⟩
  rintro rfl
  obtain ⟨shown, h⟩ := exists_lossy bytes (.inl rfl)
  rw [List.nil_append] at h
  rw [h.eq_decodeLossy]
  exact h

/-! No byte adds more than one piece. -/

theorem Reader.length_finish_afresh (ps : Array Piece) (n : Nat) :
    (afresh ps n).finish.length = ps.size + 1 := by
  unfold afresh
  cases lead n <;> simp [finish]

theorem Reader.length_finish_feed (r : Reader) (b : UInt8) :
    (r.feed b).finish.length ≤ r.finish.length + 1 := by
  obtain ⟨ps, pending⟩ := r
  cases pending with
  | none => exact Nat.le_of_eq (length_finish_afresh ps b.toNat)
  | some p =>
    have hold : (finish ⟨ps, some p⟩).length = ps.size + 1 := by simp [finish]
    by_cases hw : Within p.low p.high b
    · have hnew : (feed ⟨ps, some p⟩ b).finish.length = ps.size + 1 := by
        rw [feed_within hw]
        split <;> simp [finish]
      omega
    · have hnew : (feed ⟨ps, some p⟩ b).finish.length = ps.size + 1 + 1 := by
        rw [feed_misfit hw, length_finish_afresh, Array.size_push]
      omega

theorem length_pieces_le (bytes : List UInt8) : (pieces bytes).length ≤ bytes.length := by
  have hgrow : ∀ r : Reader, (bytes.foldl Reader.feed r).finish.length ≤
      r.finish.length + bytes.length := by
    induction bytes with
    | nil => exact fun r => Nat.le_refl _
    | cons b bytes ih =>
      intro r
      have hb := r.length_finish_feed b
      have hrest := ih (r.feed b)
      rw [List.foldl_cons, List.length_cons]
      omega
  have hstart := hgrow Reader.start
  rwa [show Reader.start.finish.length = 0 from rfl, Nat.zero_add] at hstart

theorem length_decodeLossy_le (bytes : List UInt8) : (decodeLossy bytes).length ≤ bytes.length := by
  rw [decodeLossy, String.length_ofList, List.length_map]
  exact length_pieces_le bytes

end ValueStorage.Utf8

namespace ValueStorage

/-- Bytes of which one part is well-formed are displayed part by part. A text between any two byte
strings is displayed as it is, between what these are displayed as; it has to have a character, for
without one the bytes on its two sides meet. No more characters are displayed than there are bytes.
What is displayed is the text of the well-formed parts, with one U+FFFD for each ill-formed stretch. -/
theorem display_splits :
    (∀ p q : List UInt8, Utf8.WellFormed p ∨ Utf8.WellFormed q → ∀ i j k,
      ((Literal.str (.ofBytes (p ++ q))).make i).display =
        ((Literal.str (.ofBytes p)).make j).display ++ ((Literal.str (.ofBytes q)).make k).display) ∧
    (∀ (p : List UInt8) (text : String) (q : List UInt8), text ≠ "" → ∀ i j k,
      ((Literal.str (.ofBytes (p ++ Utf8.encode text ++ q))).make i).display =
        ((Literal.str (.ofBytes p)).make j).display ++ text ++
          ((Literal.str (.ofBytes q)).make k).display) ∧
    (∀ (bytes : List UInt8) i, ((Literal.str (.ofBytes bytes)).make i).display.length ≤ bytes.length) ∧
    ∀ (bytes : List UInt8) shown i,
      ((Literal.str (.ofBytes bytes)).make i).display = shown ↔ Utf8.Lossy bytes shown := by
  refine ⟨fun p q h i j k => ?_, fun p text q h i j k => Utf8.decodeLossy_around h p q,
    fun bytes i => Utf8.length_decodeLossy_le bytes, fun bytes shown i => Utf8.lossy_iff.symm⟩
  exact Utf8.decodeLossy_append (h.imp_right Utf8.WellFormed.head_not_tail)

theorem display_splits_truncated :
    let p : List UInt8 := [0x61, 0xE2, 0x82]
    let q : List UInt8 := [0xC3, 0xA9]
    let rest : List UInt8 := [0xF0, 0x9F, 0x98]
    Utf8.WellFormed q ∧ ((Literal.str (.ofBytes (p ++ q))).make 0).display = "a\uFFFDé" ∧
      "é" ≠ "" ∧ Utf8.encode "é" = q ∧
      ((Literal.str (.ofBytes (p ++ q ++ rest))).make 0).display = "a\uFFFDé\uFFFD" ∧
      ((Literal.str (.ofBytes (p ++ q ++ rest))).make 0).display.length ≤ 8 ∧
      Utf8.Lossy (p ++ q ++ rest) "a\uFFFDé\uFFFD" := by
  intro p q rest
  have hq : Utf8.WellFormed q :=
    (Utf8.Sequence.two ⟨by decide, by decide⟩ ⟨by decide, by decide⟩).wellFormed
  have htext : Utf8.encode "é" = q := by decide
  obtain ⟨hsplit, haround, hlength, hrule⟩ := display_splits
  have hshown : ((Literal.str (.ofBytes (p ++ q ++ rest))).make 0).display = "a\uFFFDé\uFFFD" := by
    have hparts := haround p "é" rest (by decide) 0 1 2
    rw [htext] at hparts
    exact hparts.trans (by decide)
  exact ⟨hq, (hsplit p q (.inr hq) 0 1 2).trans (by decide), by decide, htext, hshown,
    hlength (p ++ q ++ rest) 0, (hrule _ _ 0).1 hshown⟩

end ValueStorage
