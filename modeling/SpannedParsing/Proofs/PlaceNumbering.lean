import Mathlib.Algebra.Order.SuccPred
import Mathlib.Data.List.DropRight
import Mathlib.Data.Nat.SuccPred
import Mathlib.Data.Prod.Lex
import SpannedParsing.Proofs.TextPlaces

/-!
# Places number the offsets of a text

A place is a line and a column, and both count characters: the line feeds in front of an
offset, and what stands between the last of them and the offset. So a place gives its
offset back, as the start of its line and the column behind it (`offset_eq_add_column`),
and a later offset has a later place (`strictMonoOn_rank_locate`).

`locate` goes from place to place. The same place is found by a scan that keeps the line and
where it starts, stops at the offset, and takes the column as a difference at the very
end. The start that it has then is never behind the offset (`locate_eq_scan`).
-/
namespace SpannedParsing

namespace Location

/-- Places in the order of reading: by the line, and inside a line by the column. -/
def rank (l : Location) : ℕ ×ₗ ℕ := toLex (l.line, l.column)

/-- One more character leads to a later place. -/
theorem rank_lt_rank_past (l : Location) (c : Char) : l.rank < (l.past c).rank := by
  rw [rank, rank, Prod.Lex.toLex_lt_toLex, past]
  by_cases feed : c = '\n'
  · rw [if_pos feed]
    exact Or.inl (Nat.lt_succ_self _)
  · rw [if_neg feed]
    exact Or.inr ⟨rfl, Nat.lt_succ_self _⟩

/-- The column counts the characters behind the last line feed. -/
theorem column_foldl_past (text : List Char) :
    (text.foldl past start).column = (text.rtakeWhile Lines.inside).length := by
  induction text using List.reverseRecOn with
  | nil => rfl
  | append_singleton text c ih =>
    rw [List.foldl_append, List.foldl_cons, List.foldl_nil, List.rtakeWhile_concat, past]
    by_cases feed : c = '\n'
    · simp [feed, Lines.inside]
    · simp [feed, Lines.inside, ih]

end Location

namespace Lines

/-- The offset at which the line with an index starts. -/
def offsetOf : List Char → Nat → Nat
  | _, 0 => 0
  | text, index + 1 => (text.takeWhile inside).length + 1 + offsetOf (afterFirst text) index

theorem offsetOf_ended_append {lines : List (List Char)} (within : ∀ line ∈ lines, '\n' ∉ line)
    (rest : List Char) : offsetOf (ended lines ++ rest) lines.length = (ended lines).length := by
  induction lines with
  | nil => rfl
  | cons line lines ih =>
    have first : '\n' ∉ line := within line List.mem_cons_self
    have others := ih fun other mem => within other (List.mem_cons_of_mem line mem)
    rw [ended_cons, List.append_assoc, List.cons_append, List.length_cons, offsetOf,
      afterFirst_append first, takeWhile_append first, others, List.length_append, List.length_cons]
    omega

/-- A line: its number, counted from one, and the offset at which it starts. -/
structure Mark where
  number : Nat
  start : Nat

/-- Go through a text from an index on, up to an offset, and keep the line that was
entered last. -/
def scan (offset : Nat) : List Char → Nat → Mark → Mark
  | [], _, mark => mark
  | c :: text, index, mark =>
    if offset ≤ index then mark
    else scan offset text (index + 1) (if c = '\n' then ⟨mark.number + 1, index + 1⟩ else mark)

/-- The scan keeps the line of the place that it has reached. Its start is never behind
that place, so the difference of the two is the column. -/
theorem foldl_past_eq_scan {offset index : Nat} (text : List Char) (mark : Mark)
    (entered : mark.start ≤ index) (le : index ≤ offset) :
    (scan offset text index mark).start ≤ min offset (index + text.length) ∧
    (text.take (offset - index)).foldl Location.past ⟨mark.number, index - mark.start⟩ =
      ⟨(scan offset text index mark).number,
        min offset (index + text.length) - (scan offset text index mark).start⟩ := by
  induction text generalizing index mark with
  | nil =>
    rw [scan, List.length_nil, Nat.add_zero, Nat.min_eq_right le, List.take_nil]
    exact ⟨entered, rfl⟩
  | cons c text ih =>
    by_cases stop : offset ≤ index
    · obtain rfl := Nat.le_antisymm stop le
      rw [scan, if_pos stop, Nat.min_eq_left (Nat.le_add_right _ _), Nat.sub_self]
      exact ⟨entered, rfl⟩
    · have more : offset - index = offset - (index + 1) + 1 := by omega
      have length : index + (c :: text).length = index + 1 + text.length := by
        rw [List.length_cons]
        omega
      rw [scan, if_neg stop, more, List.take_succ_cons, List.foldl_cons, length, Location.past]
      by_cases feed : c = '\n'
      · rw [if_pos feed, if_pos feed]
        have next := ih ⟨mark.number + 1, index + 1⟩ (Nat.le_refl _) (Nat.lt_of_not_le stop)
        rwa [Nat.sub_self] at next
      · rw [if_neg feed, if_neg feed]
        have column : index - mark.start + 1 = index + 1 - mark.start := by omega
        rw [column]
        exact ih mark (by omega) (by omega)

end Lines

namespace Source

variable (s : Source)

/-- The offset is where its line starts, and as many characters further as its column. -/
theorem offset_eq_add_column (offset : Nat) : min offset s.chars.length =
    Lines.offsetOf s.chars ((s.locate offset).line - 1) + (s.locate offset).column := by
  obtain ⟨lines, current, front⟩ := s.exists_front offset
  have start := Lines.offsetOf_ended_append front.within (current ++ s.chars.drop offset)
  rw [← front.chars_eq] at start
  rw [front.length_eq, front.locate_eq, Nat.add_sub_cancel, start]

theorem locate_succ {offset : Nat} (bound : offset < s.chars.length) :
    s.locate (offset + 1) = (s.locate offset).past s.chars[offset] := by
  rw [locate, locate, List.take_succ_eq_append_getElem bound, List.foldl_append]
  rfl

/-- Up to the end of the text, a later offset has a later place. -/
theorem strictMonoOn_rank_locate :
    StrictMonoOn (fun offset => (s.locate offset).rank) (Set.Iic s.chars.length) := by
  refine strictMonoOn_of_lt_add_one Set.ordConnected_Iic ?_
  intro offset _ _ bound
  have inside : offset < s.chars.length := bound
  rw [s.locate_succ inside]
  exact Location.rank_lt_rank_past _ _

/-- The line that a scan of the text up to an offset enters last. -/
def lineAt (offset : Nat) : Lines.Mark := Lines.scan offset s.chars 0 ⟨1, 0⟩

/-- The scan finds the place of an offset, with the column as an exact difference. -/
theorem locate_eq_scan (offset : Nat) :
    (s.lineAt offset).start ≤ min offset s.chars.length ∧
    s.locate offset =
      ⟨(s.lineAt offset).number, min offset s.chars.length - (s.lineAt offset).start⟩ := by
  have whole := Lines.foldl_past_eq_scan s.chars ⟨1, 0⟩ (Nat.le_refl 0) (Nat.zero_le offset)
  rwa [Nat.zero_add] at whole

/-- Places are an invertible numbering of the offsets of a text, in the order of reading: lines
count line feeds from one, and columns the characters behind the last of them. All offsets
behind the end have the place of the end. A scan that takes the column as the difference to
the start of its line finds the same places, and never takes away more than there is. -/
theorem locate_numbers_offsets :
    (∀ offset,
      (s.locate offset).line = (s.chars.take (min offset s.chars.length)).count '\n' + 1 ∧
      (s.locate offset).column =
        ((s.chars.take (min offset s.chars.length)).rtakeWhile Lines.inside).length ∧
      min offset s.chars.length =
        Lines.offsetOf s.chars ((s.locate offset).line - 1) + (s.locate offset).column) ∧
    Set.InjOn s.locate (Set.Iic s.chars.length) ∧
    StrictMonoOn (fun offset => (s.locate offset).rank) (Set.Iic s.chars.length) ∧
    (∀ offset, s.chars.length ≤ offset → s.locate offset = s.locate s.chars.length) ∧
    ∀ offset, (s.lineAt offset).start ≤ min offset s.chars.length ∧
      s.locate offset =
        ⟨(s.lineAt offset).number, min offset s.chars.length - (s.lineAt offset).start⟩ := by
  refine ⟨?_, ?_, s.strictMonoOn_rank_locate, ?_, s.locate_eq_scan⟩
  · intro offset
    have same : s.chars.take (min offset s.chars.length) = s.chars.take offset :=
      List.take_eq_take_min.symm
    refine ⟨?_, ?_, s.offset_eq_add_column offset⟩
    · rw [same, locate, Location.line_foldl_past, Location.start, Nat.add_comm]
    · rw [same, locate, Location.column_foldl_past]
  · intro a ha b hb same
    exact s.strictMonoOn_rank_locate.injOn ha hb (congrArg Location.rank same)
  · intro offset behind
    rw [s.locate_of_length_le behind, s.locate_of_length_le (Nat.le_refl _)]

end Source

end SpannedParsing
