import Mathlib.Data.Bool.AllAny
import ValueStorage.Proofs.LayoutLines

/-! Layouts that can be told by their compact texts. A label or a name is a word, in which no mark of a
layout stands, and a text is a word or is quoted. Read from the left, each ends in one place only: a
word where a mark follows, perhaps behind a space, and a quoted text at its closing quote. What follows
then tells a text from a field and a group. -/

namespace ValueStorage.Layout

variable {w w' t t' r r' : List Char} {x y : Layout} {items items' : List Layout}
  {bracket bracket' : Bracket}

/-! Words and quoted texts. -/

def IsMark (c : Char) : Prop := c ∈ [',', ':', '(', ')', '[', ']', '\x7b', '\x7d']

instance (c : Char) : Decidable (IsMark c) := inferInstanceAs (Decidable (_ ∈ _))

structure IsWord (w : List Char) : Prop where
  plain : ∀ c ∈ w, ¬ IsMark c ∧ c ≠ '"' ∧ c ≠ '\n'
  first : w.head? ≠ some ' '
  last : w.getLast? ≠ some ' '

instance (w : List Char) : Decidable (IsWord w) :=
  decidable_of_iff (w.all (fun c => ¬ IsMark c ∧ c ≠ '"' ∧ c ≠ '\n') ∧ w.head? ≠ some ' ' ∧
    w.getLast? ≠ some ' ')
    ⟨fun h => ⟨List.all_iff_forall_prop.1 h.1, h.2.1, h.2.2⟩,
      fun h => ⟨List.all_iff_forall_prop.2 h.plain, h.first, h.last⟩⟩

/-- What is left behind the quote that ends a quoted text. No character ends it right behind a
backslash. -/
def behindQuote : Bool → List Char → List Char
  | _, [] => []
  | true, _ :: rest => behindQuote false rest
  | false, c :: rest => if c = '"' then rest else behindQuote (c = '\\') rest

structure IsQuoted (w : List Char) : Prop where
  unbroken : '\n' ∉ w
  closed : ∃ body, w = '"' :: body ∧ ∀ rest, behindQuote false (body ++ rest) = rest

def IsStem (w : List Char) : Prop := IsWord w ∨ IsQuoted w

inductive Stops : List Char → Prop
  | nil : Stops []
  | mark {c : Char} {rest : List Char} (h : IsMark c) : Stops (c :: rest)
  | spaced {c : Char} {rest : List Char} (h : IsMark c) : Stops (' ' :: c :: rest)

theorem IsWord.eq_nil_of_stops (h : IsWord (w ++ t)) (hstops : Stops (t ++ r)) : t = [] := by
  cases t with
  | nil => rfl
  | cons c t =>
    have hc : ¬ IsMark c := (h.plain c (by simp)).1
    rw [List.cons_append] at hstops
    generalize hrest : t ++ r = rest at hstops
    cases hstops with
    | mark hmark => exact absurd hmark hc
    | spaced hmark =>
      -- The space would be the last character of the word, or the mark would stand in it.
      cases t with
      | nil => exact absurd (List.getLast?_concat ..) h.last
      | cons d t =>
        obtain ⟨rfl, _⟩ := List.cons_eq_cons.1 hrest
        exact absurd hmark (h.plain d (by simp)).1

theorem IsWord.append_inj (hw : IsWord w) (hw' : IsWord w') (ht : Stops t) (ht' : Stops t')
    (h : w ++ t = w' ++ t') : w = w' ∧ t = t' := by
  rcases List.append_eq_append_iff.1 h with ⟨more, rfl, rfl⟩ | ⟨more, rfl, rfl⟩
  · obtain rfl := hw'.eq_nil_of_stops ht
    exact ⟨(List.append_nil _).symm, rfl⟩
  · obtain rfl := hw.eq_nil_of_stops ht'
    exact ⟨List.append_nil _, rfl⟩

theorem IsQuoted.ne_nil (h : IsQuoted w) : w ≠ [] := by
  obtain ⟨body, rfl, _⟩ := h.closed
  exact List.cons_ne_nil _ _

theorem IsQuoted.append_inj (hw : IsQuoted w) (hw' : IsQuoted w') (h : w ++ t = w' ++ t') :
    w = w' ∧ t = t' := by
  obtain ⟨body, hbody, hclosed⟩ := hw.closed
  obtain ⟨body', hbody', hclosed'⟩ := hw'.closed
  have hrest : body ++ t = body' ++ t' := by
    rw [hbody, hbody'] at h
    exact List.tail_eq_of_cons_eq h
  have ht : t = t' := by rw [← hclosed t, hrest, hclosed']
  subst ht
  exact ⟨List.append_cancel_right h, rfl⟩

theorem IsWord.append_ne_quoted (hw : IsWord w) (ht : Stops t) (hw' : IsQuoted w') :
    w ++ t ≠ w' ++ t' := by
  obtain ⟨body, rfl, _⟩ := hw'.closed
  intro h
  cases w with
  | nil =>
    rw [List.nil_append] at h
    subst h
    generalize body ++ t' = rest at ht
    cases ht with
    | mark hmark => exact absurd hmark (by decide)
  | cons c w => exact absurd (List.cons_eq_cons.1 h).1 (hw.plain c (List.mem_cons_self ..)).2.1

theorem IsStem.append_inj (hw : IsStem w) (hw' : IsStem w') (ht : Stops t) (ht' : Stops t')
    (h : w ++ t = w' ++ t') : w = w' ∧ t = t' := by
  rcases hw with hword | hquoted <;> rcases hw' with hword' | hquoted'
  · exact hword.append_inj hword' ht ht' h
  · exact absurd h (hword.append_ne_quoted ht hquoted')
  · exact absurd h.symm (hword'.append_ne_quoted ht' hquoted)
  · exact hquoted.append_inj hquoted' h

/-! Layouts. -/

inductive Legible : Layout → Prop
  | text {written : String} (h : IsStem written.toList) (hne : written.toList ≠ []) :
    Legible (.text written)
  | field {label : String} {inner : Layout} (hlabel : IsWord label.toList) (hinner : Legible inner) :
    Legible (.field label inner)
  | group {name : String} {bracket : Bracket} {items : List Layout} (hname : IsWord name.toList)
    (hbraces : bracket = .braces → name.toList ≠ []) (hitems : ∀ item ∈ items, Legible item) :
    Legible (.group name bracket items)

inductive Ends : List Char → Prop
  | nil : Ends []
  | comma {rest : List Char} : Ends (',' :: rest)
  | closing {rest : List Char} (bracket : Bracket) :
    Ends (bracket.padding.toList ++ (bracket.closing.toList ++ rest))

theorem Ends.stops (h : Ends r) : Stops r := by
  cases h with
  | nil => exact .nil
  | comma => exact .mark (by decide)
  | closing bracket =>
    cases bracket
    · exact .spaced (by decide)
    · exact .mark (by decide)
    · exact .mark (by decide)

def stem : Layout → List Char
  | .text written => written.toList
  | .field label _ => label.toList
  | .group name _ _ => name.toList

def further (bracket : Bracket) (rest : List Char) : List Layout → List Char
  | [] => bracket.padding.toList ++ (bracket.closing.toList ++ rest)
  | item :: items => ',' :: ' ' :: (item.compact.toList ++ further bracket rest items)

def inside (bracket : Bracket) (rest : List Char) : List Layout → List Char
  | [] => bracket.closing.toList ++ rest
  | item :: items => bracket.padding.toList ++ (item.compact.toList ++ further bracket rest items)

def behind (rest : List Char) : Layout → List Char
  | .text _ => rest
  | .field _ inner => ':' :: ' ' :: (inner.compact.toList ++ rest)
  | .group _ bracket items => bracket.opening.toList ++ inside bracket rest items

theorem ends_further (bracket : Bracket) (rest : List Char) (items : List Layout) :
    Ends (further bracket rest items) := by
  cases items with
  | nil => exact .closing bracket
  | cons item items => exact .comma

theorem intercalate_compactAll_append (item : Layout) (items : List Layout) :
    (", ".intercalate (compactAll (item :: items))).toList ++
      (bracket.padding.toList ++ (bracket.closing.toList ++ r)) =
    item.compact.toList ++ further bracket r items := by
  induction items generalizing item with
  | nil =>
    rw [compactAll, compactAll, String.intercalate_singleton, further]
  | cons next items ih =>
    rw [intercalate_compactAll_cons, String.toList_append, String.toList_append, List.append_assoc,
      List.append_assoc, ih, further]
    rfl

theorem compact_append (x : Layout) (r : List Char) :
    x.compact.toList ++ r = x.stem ++ behind r x := by
  cases x with
  | text written => rw [compact, stem, behind]
  | field label inner =>
    rw [compact, stem, behind, String.toList_append, String.toList_append, List.append_assoc,
      List.append_assoc]
    rfl
  | group name bracket items =>
    cases items with
    | nil =>
      rw [compact, if_pos List.isEmpty_nil, stem, behind, inside]
      simp only [String.toList_append, List.append_assoc]
    | cons item items =>
      rw [compact_group_of_ne_nil (List.cons_ne_nil _ _), stem, behind, inside,
        ← intercalate_compactAll_append]
      simp only [String.toList_append, List.append_assoc]

theorem stops_opening (bracket : Bracket) (rest : List Char) :
    Stops (bracket.opening.toList ++ rest) := by
  cases bracket
  · exact .spaced (by decide)
  · exact .mark (by decide)
  · exact .mark (by decide)

theorem stops_behind (hr : Ends r) (x : Layout) : Stops (behind r x) := by
  cases x with
  | text written => exact hr.stops
  | field label inner => exact .mark (by decide)
  | group name bracket items => exact stops_opening bracket _

theorem Legible.stem (h : Legible x) : IsStem x.stem := by
  cases h with
  | text h => exact h
  | field hlabel => exact .inl hlabel
  | group hname => exact .inl hname

/-! Equal texts. -/

theorem Ends.ne_field (h : Ends r) : r ≠ ':' :: t := by
  rintro rfl
  generalize hr : ':' :: t = r at h
  cases h with
  | nil => exact nomatch hr
  | comma => exact absurd hr (by simp)
  | closing bracket => cases bracket <;> simp [Bracket.padding, Bracket.closing] at hr

theorem Ends.ne_opening (h : Ends r) : r ≠ bracket.opening.toList ++ t := by
  intro hr
  cases h with
  | nil => cases bracket <;> exact nomatch hr
  | comma => cases bracket <;> simp [Bracket.opening] at hr
  | closing bracket' =>
    cases bracket <;> cases bracket' <;> simp [Bracket.opening, Bracket.padding, Bracket.closing] at hr

theorem opening_append_inj (h : bracket.opening.toList ++ t = bracket'.opening.toList ++ t') :
    bracket = bracket' ∧ t = t' := by
  cases bracket <;> cases bracket' <;> simp [Bracket.opening] at h <;> exact ⟨rfl, h⟩

theorem colon_ne_opening : ':' :: t ≠ bracket.opening.toList ++ t' := by
  cases bracket <;> simp [Bracket.opening]

theorem IsStem.not_isMark {c : Char} (h : IsStem (c :: w)) : ¬ IsMark c := by
  rcases h with hword | hquoted
  · exact (hword.plain c (List.mem_cons_self ..)).1
  · obtain ⟨body, hbody, _⟩ := hquoted.closed
    obtain ⟨rfl, _⟩ := List.cons_eq_cons.1 hbody
    decide

theorem Legible.ne_closing (h : Legible x) :
    bracket.closing.toList ++ t ≠ bracket.padding.toList ++ (x.compact.toList ++ r) := by
  intro hclosing
  rw [compact_append] at hclosing
  cases hstem : x.stem with
  | cons c w =>
    have hmark : ¬ IsMark c := (hstem ▸ h.stem : IsStem (c :: w)).not_isMark
    rw [hstem] at hclosing
    cases bracket <;> simp [Bracket.closing, Bracket.padding] at hclosing
    · exact absurd (hclosing.1 ▸ (by decide : IsMark ')')) hmark
    · exact absurd (hclosing.1 ▸ (by decide : IsMark ']')) hmark
  | nil =>
    rw [hstem] at hclosing
    cases h with
    | text _ hne => exact absurd hstem hne
    | field => cases bracket <;> simp [Bracket.closing, Bracket.padding, behind] at hclosing
    | @group _ inner =>
      cases bracket <;> cases inner <;>
        simp [Bracket.closing, Bracket.padding, Bracket.opening, behind] at hclosing

/-- Equal texts that begin with the layout and end alike begin with the same layout. -/
def Determined (x : Layout) : Prop :=
  ∀ {y : Layout} {r r' : List Char}, Legible y → Ends r → Ends r' →
    x.compact.toList ++ r = y.compact.toList ++ r' → x = y ∧ r = r'

theorem further_inj (hitems : ∀ item ∈ items, Determined item)
    (hitems' : ∀ item ∈ items', Legible item)
    (h : further bracket r items = further bracket r' items') : items = items' ∧ r = r' := by
  induction items generalizing items' with
  | nil =>
    cases items' with
    | nil => exact ⟨rfl, List.append_cancel_left (List.append_cancel_left h)⟩
    | cons item' items' =>
      cases bracket <;> simp [further, Bracket.padding, Bracket.closing] at h
  | cons item items ih =>
    cases items' with
    | nil => cases bracket <;> simp [further, Bracket.padding, Bracket.closing] at h
    | cons item' items' =>
      have hrest := List.tail_eq_of_cons_eq (List.tail_eq_of_cons_eq h)
      obtain ⟨rfl, hmore⟩ := hitems item (List.mem_cons_self ..) (hitems' _ (List.mem_cons_self ..))
        (ends_further ..) (ends_further ..) hrest
      obtain ⟨rfl, rfl⟩ := ih (fun i hi => hitems i (List.mem_cons_of_mem _ hi))
        (fun i hi => hitems' i (List.mem_cons_of_mem _ hi)) hmore
      exact ⟨rfl, rfl⟩

theorem inside_inj (hlegible : ∀ item ∈ items, Legible item)
    (hitems : ∀ item ∈ items, Determined item) (hitems' : ∀ item ∈ items', Legible item)
    (h : inside bracket r items = inside bracket r' items') : items = items' ∧ r = r' := by
  cases items with
  | nil =>
    cases items' with
    | nil => exact ⟨rfl, List.append_cancel_left h⟩
    | cons item' items' => exact absurd h (hitems' item' (List.mem_cons_self ..)).ne_closing
  | cons item items =>
    cases items' with
    | nil => exact absurd h.symm (hlegible item (List.mem_cons_self ..)).ne_closing
    | cons item' items' =>
      have hfurther : further bracket r (item :: items) = further bracket r' (item' :: items') :=
        congrArg (',' :: ' ' :: ·) (List.append_cancel_left h)
      exact further_inj hitems hitems' hfurther

theorem Legible.stem_behind_inj (hx : Legible x) (hy : Legible y) (hr : Ends r) (hr' : Ends r')
    (h : x.compact.toList ++ r = y.compact.toList ++ r') :
    x.stem = y.stem ∧ behind r x = behind r' y := by
  rw [compact_append, compact_append] at h
  exact hx.stem.append_inj hy.stem (stops_behind hr x) (stops_behind hr' y) h

theorem Legible.determined (hx : Legible x) : Determined x := by
  -- the other layout is then of the same kind, as what stands behind its stem would begin differently
  induction hx with
  | @text written h hne =>
    intro y r r' hy hr hr' heq
    obtain ⟨hstem, hbehind⟩ := (Legible.text h hne).stem_behind_inj hy hr hr' heq
    cases hy with
    | text => exact ⟨congrArg Layout.text (String.toList_inj.1 hstem), hbehind⟩
    | field => exact absurd hbehind hr.ne_field
    | group => exact absurd hbehind hr.ne_opening
  | @field label inner hlabel hinner ih =>
    intro y r r' hy hr hr' heq
    obtain ⟨hstem, hbehind⟩ := (Legible.field hlabel hinner).stem_behind_inj hy hr hr' heq
    cases hy with
    | text => exact absurd hbehind.symm hr'.ne_field
    | field hlabel' hinner' =>
      obtain ⟨rfl, rfl⟩ :=
        ih hinner' hr hr' (List.tail_eq_of_cons_eq (List.tail_eq_of_cons_eq hbehind))
      exact ⟨congrArg (Layout.field · inner) (String.toList_inj.1 hstem), rfl⟩
    | group => exact absurd hbehind colon_ne_opening
  | @group name bracket items hname hbraces hitems ih =>
    intro y r r' hy hr hr' heq
    obtain ⟨hstem, hbehind⟩ := (Legible.group hname hbraces hitems).stem_behind_inj hy hr hr' heq
    cases hy with
    | text => exact absurd hbehind.symm hr'.ne_opening
    | field => exact absurd hbehind.symm colon_ne_opening
    | group hname' hbraces' hitems' =>
      obtain ⟨rfl, hinside⟩ := opening_append_inj hbehind
      obtain ⟨rfl, rfl⟩ := inside_inj hitems ih hitems' hinside
      exact ⟨congrArg (Layout.group · bracket items) (String.toList_inj.1 hstem), rfl⟩

theorem Legible.compact_inj (hx : Legible x) (hy : Legible y) : x.compact = y.compact ↔ x = y := by
  refine ⟨fun h => ?_, congrArg compact⟩
  exact (hx.determined hy .nil .nil (by rw [h])).1

/-! Lines. -/

theorem IsStem.isClean (h : IsStem w) : IsClean w := by
  rcases h with hword | hquoted
  · exact ⟨fun hmem => (hword.plain _ hmem).2.2 rfl, hword.first⟩
  · obtain ⟨body, hbody, _⟩ := hquoted.closed
    refine ⟨hquoted.unbroken, fun hspace => ?_⟩
    rw [hbody] at hspace
    exact absurd (Option.some.inj hspace) (by decide)

theorem isClean_linesAll {depth : Nat}
    (h : ∀ item ∈ items, ∀ line ∈ item.lines depth "" ",", IsClean line.text.toList) :
    ∀ line ∈ linesAll depth items, IsClean line.text.toList := by
  intro line hline
  rw [linesAll_eq_flatMap, List.mem_flatMap] at hline
  obtain ⟨item, hitem, hline⟩ := hline
  exact h item hitem line hline

theorem isClean_group {name : String} (hname : IsWord name.toList)
    (hbraces : bracket = .braces → name.toList ≠ []) :
    IsClean (name.toList ++ bracket.opening.toList) := by
  have hclean : IsClean name.toList := IsStem.isClean (.inl hname)
  cases bracket with
  | braces =>
    refine ⟨by simp [Bracket.opening, hclean.1], ?_⟩
    rw [List.head?_append_of_ne_nil _ (hbraces rfl)]
    exact hclean.2
  | round => exact hclean.append (by decide)
  | square => exact hclean.append (by decide)

theorem Legible.isClean_lines (hx : Legible x) {depth : Nat} {lead trail : String}
    (hlead : IsClean lead.toList) (htrail : IsClean trail.toList) :
    ∀ line ∈ x.lines depth lead trail, IsClean line.text.toList := by
  induction hx generalizing depth lead trail with
  | text h =>
    intro line hline
    rw [lines, List.mem_singleton] at hline
    subst hline
    rw [String.toList_append, String.toList_append]
    exact (hlead.append h.isClean).append htrail
  | field hlabel _ ih =>
    refine ih ?_ htrail
    rw [String.toList_append, String.toList_append]
    exact (hlead.append (IsStem.isClean (.inl hlabel))).append (by decide)
  | @group name bracket items hname hbraces _ ih =>
    have hopening : IsClean (lead ++ name ++ bracket.opening).toList := by
      rw [String.toList_append, String.toList_append, List.append_assoc]
      exact hlead.append (isClean_group hname hbraces)
    have hclosing : IsClean bracket.closing.toList := by cases bracket <;> decide
    by_cases hempty : items = []
    · subst hempty
      intro line hline
      rw [lines, if_pos List.isEmpty_nil, List.mem_singleton] at hline
      subst hline
      rw [String.toList_append, String.toList_append]
      exact (hopening.append hclosing).append htrail
    · rw [lines_group_of_ne_nil hempty]
      intro line hline
      rcases List.mem_cons.1 hline with rfl | hline
      · exact hopening
      rcases List.mem_append.1 hline with hitem | hclose
      · exact isClean_linesAll (fun item hitem => ih item hitem (by decide) (by decide)) line hitem
      · rw [List.mem_singleton.1 hclose, String.toList_append]
        exact hclosing.append htrail

theorem Legible.textLines_spread (hx : Legible x) :
    textLines x.spread = (x.lines 0 "" "").map Line.indented :=
  Layout.textLines_spread (hx.isClean_lines (by decide) (by decide))

theorem Legible.compacted_spread (hx : Legible x) : compacted x.spread = x.compact :=
  Layout.compacted_spread (hx.isClean_lines (by decide) (by decide))

theorem Legible.spread_inj (hx : Legible x) (hy : Legible y) : x.spread = y.spread ↔ x = y := by
  refine ⟨fun h => (hx.compact_inj hy).1 ?_, congrArg spread⟩
  rw [← hx.compacted_spread, h, hy.compacted_spread]

end ValueStorage.Layout
