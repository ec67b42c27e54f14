import Mathlib.Data.List.Infix
import Mathlib.Tactic.Common
import ValueStorage.Layout

/-! From the spread layout back to the compact one. A spread text is cut into lines, each of which is known
by its indentation, and the lines are joined again. How, is decided by the indentation alone: where the
next line is further in, a group has begun, and where it is further out, one ends. Nothing is looked at
but the bracket that a line ends or begins with. -/

namespace ValueStorage.Layout

theorem induct {P : Layout → Prop} (text : ∀ written, P (.text written))
    (field : ∀ label inner, P inner → P (.field label inner))
    (group : ∀ name bracket items, (∀ item ∈ items, P item) → P (.group name bracket items)) :
    ∀ x, P x
  | .text written => text written
  | .field label inner => field label inner (induct text field group inner)
  | .group name bracket items =>
    group name bracket items fun item _ => induct text field group item

variable {depth : Nat} {lead trail : String} {x : Layout} {items : List Layout}

/-! Groups without items and with some. -/

theorem lines_group_of_ne_nil (h : items ≠ []) (name : String) (bracket : Bracket) :
    (group name bracket items).lines depth lead trail =
      ⟨depth, lead ++ name ++ bracket.opening⟩ ::
        (linesAll (depth + 1) items ++ [⟨depth, bracket.closing ++ trail⟩]) := by
  rw [lines, if_neg (mt List.isEmpty_iff.1 h)]

theorem compact_group_of_ne_nil (h : items ≠ []) (name : String) (bracket : Bracket) :
    (group name bracket items).compact = name ++ bracket.opening ++ bracket.padding ++
      ", ".intercalate (compactAll items) ++ bracket.padding ++ bracket.closing := by
  rw [compact, if_neg (mt List.isEmpty_iff.1 h)]

theorem intercalate_compactAll_cons (item next : Layout) (items : List Layout) :
    ", ".intercalate (compactAll (item :: next :: items)) =
      item.compact ++ ", " ++ ", ".intercalate (compactAll (next :: items)) :=
  String.intercalate_cons_cons

/-! Joining lines. -/

/-- What a line becomes when another one is joined to it. The comma at its end goes if a group ends
behind it. -/
def seam (line next : Line) : List Char :=
  if line.depth < next.depth then
    line.text.toList ++ if line.text.toList.getLast? = some '\x7b' then [' '] else []
  else if next.depth < line.depth then
    line.text.toList.dropLast ++ if next.text.toList.head? = some '\x7d' then [' '] else []
  else line.text.toList ++ [' ']

def gathered : List Line → List Char
  | [] => []
  | [line] => line.text.toList
  | line :: next :: rest => seam line next ++ gathered (next :: rest)

def gap (depth : Nat) (next : Line) : List Char :=
  if next.depth < depth then if next.text.toList.head? = some '\x7d' then [' '] else []
  else [',', ' ']

theorem seam_item {next : Line} (hnext : next.depth ≤ depth) (text : String) :
    seam ⟨depth, text ++ ","⟩ next = text.toList ++ gap depth next := by
  have htext : (text ++ ",").toList = text.toList ++ [','] := String.toList_append
  rw [seam, if_neg (Nat.not_lt.2 hnext), gap, htext]
  split
  · rw [List.dropLast_concat]
  · rw [List.append_assoc]
    rfl

theorem seam_opening {bracket : Bracket} {next : Line} (hnext : depth < next.depth) (text : String) :
    seam ⟨depth, text ++ bracket.opening⟩ next =
      text.toList ++ (bracket.opening ++ bracket.padding).toList := by
  rw [seam, if_pos hnext, String.toList_append, String.toList_append, List.append_assoc]
  cases bracket <;> simp [Bracket.opening, Bracket.padding]

theorem gap_closing {bracket : Bracket} {text : String} {outer : Nat} (h : outer < depth) :
    gap depth ⟨outer, bracket.closing ++ text⟩ = bracket.padding.toList := by
  rw [gap, if_pos h]
  cases bracket <;> simp [Bracket.closing, Bracket.padding]

theorem exists_first (x : Layout) (depth : Nat) (lead trail : String) :
    ∃ text rest, x.lines depth lead trail = ⟨depth, text⟩ :: rest := by
  induction x using induct generalizing lead with
  | text written => exact ⟨_, [], rfl⟩
  | field label inner ih => exact ih _
  | group name bracket items ih =>
    rw [lines]
    split
    · exact ⟨_, [], rfl⟩
    · exact ⟨_, _, rfl⟩

theorem exists_first_of_all (hitems : items ≠ []) (depth : Nat) :
    ∃ text rest, linesAll depth items = ⟨depth, text⟩ :: rest := by
  obtain ⟨item, others, rfl⟩ := List.exists_cons_of_ne_nil hitems
  obtain ⟨text, rest, hfirst⟩ := exists_first item depth "" ","
  exact ⟨text, rest ++ linesAll depth others, by rw [linesAll, hfirst, List.cons_append]⟩

/-! Joining the lines of a layout. What follows on the lines is fixed by how the last of them goes on,
whatever it says. -/

def Gathers (x : Layout) : Prop :=
  ∀ {depth : Nat} {lead trail : String} {tail : List Line} {ending : List Char},
    (∀ text, gathered (⟨depth, text ++ trail⟩ :: tail) = text.toList ++ ending) →
    gathered (x.lines depth lead trail ++ tail) = lead.toList ++ (x.compact.toList ++ ending)

theorem Gathers.item (h : Gathers x) {next : Line} {rest : List Line} (hnext : next.depth ≤ depth) :
    gathered (x.lines depth "" "," ++ next :: rest) =
      x.compact.toList ++ (gap depth next ++ gathered (next :: rest)) := by
  have hend : ∀ text : String, gathered (⟨depth, text ++ ","⟩ :: next :: rest) =
      text.toList ++ (gap depth next ++ gathered (next :: rest)) := by
    intro text
    rw [gathered, seam_item hnext, List.append_assoc]
  rw [h hend]
  rfl

theorem gathered_items (hitems : items ≠ []) (h : ∀ item ∈ items, Gathers item) (close : Line)
    {tail : List Line} (hclose : close.depth ≤ depth) :
    gathered (linesAll depth items ++ close :: tail) =
      (", ".intercalate (compactAll items)).toList ++
        (gap depth close ++ gathered (close :: tail)) := by
  induction items with
  | nil => exact absurd rfl hitems
  | cons item items ih =>
    have hitem : Gathers item := h item (List.mem_cons_self ..)
    have hrest : ∀ item ∈ items, Gathers item := fun i hi => h i (List.mem_cons_of_mem _ hi)
    cases items with
    | nil =>
      rw [linesAll, linesAll, List.append_nil, hitem.item hclose, compactAll, compactAll]
      simp
    | cons next items =>
      have hne : next :: items ≠ [] := List.cons_ne_nil _ _
      obtain ⟨text, rest, hfirst⟩ := exists_first_of_all hne depth
      rw [linesAll, List.append_assoc, hfirst, List.cons_append, hitem.item (Nat.le_refl depth),
        ← List.cons_append, ← hfirst, ih hne hrest, gap, if_neg (Nat.lt_irrefl _),
        intercalate_compactAll_cons, String.toList_append, String.toList_append, List.append_assoc,
        List.append_assoc]
      rfl

theorem gathers (x : Layout) : Gathers x := by
  induction x using induct with
  | text written =>
    intro depth lead trail tail ending hend
    rw [lines, List.singleton_append, hend, compact, String.toList_append, List.append_assoc]
  | field label inner ih =>
    intro depth lead trail tail ending hend
    rw [lines, ih hend, compact]
    simp only [String.toList_append, List.append_assoc]
  | group name bracket items ih =>
    intro depth lead trail tail ending hend
    by_cases hitems : items = []
    · subst hitems
      change gathered (⟨depth, lead ++ name ++ bracket.opening ++ bracket.closing ++ trail⟩ :: tail) =
        lead.toList ++ ((name ++ bracket.opening ++ bracket.closing).toList ++ ending)
      rw [hend]
      simp only [String.toList_append, List.append_assoc]
    · -- Only depths decide how the opening line goes on, so any first line of the items will do.
      obtain ⟨text, rest, hfirst⟩ := exists_first_of_all hitems (depth + 1)
      rw [lines_group_of_ne_nil hitems, compact_group_of_ne_nil hitems, List.cons_append,
        List.append_assoc, List.singleton_append, hfirst, List.cons_append, gathered,
        seam_opening (Nat.lt_succ_self _), ← List.cons_append, ← hfirst,
        gathered_items hitems ih ⟨depth, bracket.closing ++ trail⟩ (Nat.le_succ _),
        gap_closing (Nat.lt_succ_self _), hend]
      simp only [String.toList_append, List.append_assoc]

theorem gathered_lines (x : Layout) : gathered (x.lines 0 "" "") = x.compact.toList := by
  have hend : ∀ text : String, gathered [⟨0, text ++ ""⟩] = text.toList ++ [] := by
    intro text
    rw [gathered, String.append_empty, List.append_nil]
  have hjoin : gathered (x.lines 0 "" "" ++ []) = "".toList ++ (x.compact.toList ++ []) :=
    gathers x hend
  rw [List.append_nil, List.append_nil] at hjoin
  exact hjoin

/-! Reading lines. -/

def textLines (text : String) : List String := (text.toList.splitOn '\n').map String.ofList

def Line.ofText (text : String) : Line :=
  ⟨(text.toList.takeWhile (· = ' ')).length / 4,
    String.ofList (text.toList.dropWhile (· = ' '))⟩

def compacted (text : String) : String :=
  String.ofList (gathered ((textLines text).map Line.ofText))

def IsClean (text : List Char) : Prop := '\n' ∉ text ∧ text.head? ≠ some ' '

instance (text : List Char) : Decidable (IsClean text) := inferInstanceAs (Decidable (_ ∧ _))

theorem IsClean.append {text more : List Char} (h : IsClean text) (hmore : IsClean more) :
    IsClean (text ++ more) := by
  refine ⟨by simp [h.1, hmore.1], ?_⟩
  cases text with
  | nil => exact hmore.2
  | cons c text => exact h.2

theorem IsClean.takeWhile_dropWhile {text : List Char} (h : IsClean text) :
    text.takeWhile (· = ' ') = [] ∧ text.dropWhile (· = ' ') = text := by
  cases text with
  | nil => exact ⟨rfl, rfl⟩
  | cons c text =>
    have hc : ¬ decide (c = ' ') = true := fun hc => h.2 (congrArg some (of_decide_eq_true hc))
    exact ⟨List.takeWhile_cons_of_neg hc, List.dropWhile_cons_of_neg hc⟩

theorem toList_indented (line : Line) :
    line.indented.toList = List.replicate (4 * line.depth) ' ' ++ line.text.toList := by
  rw [Line.indented, String.toList_append, String.toList_ofList]

theorem ofText_indented {line : Line} (h : IsClean line.text.toList) :
    Line.ofText line.indented = line := by
  have hspaces : ∀ c ∈ List.replicate (4 * line.depth) ' ', decide (c = ' ') = true :=
    fun c hc => decide_eq_true (List.eq_of_mem_replicate hc)
  obtain ⟨htake, hdrop⟩ := h.takeWhile_dropWhile
  rw [Line.ofText, toList_indented, List.takeWhile_append_of_pos hspaces,
    List.dropWhile_append_of_pos hspaces, htake, hdrop, List.append_nil, List.length_replicate,
    Nat.mul_div_cancel_left _ (by decide), String.ofList_toList]

theorem textLines_spread (h : ∀ line ∈ x.lines 0 "" "", IsClean line.text.toList) :
    textLines x.spread = (x.lines 0 "" "").map Line.indented := by
  have hne : ((x.lines 0 "" "").map Line.indented).map String.toList ≠ [] := by
    obtain ⟨text, rest, hfirst⟩ := exists_first x 0 "" ""
    rw [hfirst]
    exact List.cons_ne_nil _ _
  have hbreak : ∀ text ∈ ((x.lines 0 "" "").map Line.indented).map String.toList, '\n' ∉ text := by
    rw [List.map_map]
    intro text htext
    obtain ⟨line, hline, rfl⟩ := List.mem_map.1 htext
    rw [Function.comp_apply, toList_indented, List.mem_append, List.mem_replicate]
    rintro (⟨_, hspace⟩ | hmem)
    · exact absurd hspace (by decide)
    · exact (h line hline).1 hmem
  have hsplit : x.spread.toList.splitOn '\n' =
      ((x.lines 0 "" "").map Line.indented).map String.toList := by
    rw [spread, String.toList_intercalate]
    exact List.splitOn_intercalate _ hbreak hne
  rw [textLines, hsplit, List.map_map]
  exact (List.map_congr_left fun text _ => String.ofList_toList).trans (List.map_id' _)

theorem compacted_spread (h : ∀ line ∈ x.lines 0 "" "", IsClean line.text.toList) :
    compacted x.spread = x.compact := by
  have hlines : ((x.lines 0 "" "").map Line.indented).map Line.ofText = x.lines 0 "" "" := by
    rw [List.map_map]
    exact (List.map_congr_left fun line hline => ofText_indented (h line hline)).trans (List.map_id' _)
  rw [compacted, textLines_spread h, hlines, gathered_lines, String.ofList_toList]

end ValueStorage.Layout
