import SpannedParsing.Proofs.PlaceNumbering

/-!
# The lines of a text

Lines are cut off by one rule and counted by another. Cutting drops the line feed at the end
of a line, a carriage return in front of it too, and finds nothing behind the last line
feed; counting goes by line feeds alone. With what ends it put back, each line is a stretch
of the text, from the place where counting says that the line starts up to the next line
feed (`lineOf?_eq_some_iff`), and all stretches together are the text (`Cut.flatMap_eq`). The
two rules disagree at one place only: at the end of a text whose last line is ended, where
counting has gone on to a line that cutting does not find (`lineOf?_eq_none_iff`).
-/
namespace SpannedParsing

namespace Lines

variable {line ending rest text : List Char}

/-- The characters up to the first line feed, which is included, or all of them. -/
def stretch (text : List Char) : List Char :=
  text.takeWhile inside ++ (text.dropWhile inside).take 1

/-- A line is found again, and what follows it, where its end stands behind it. -/
theorem Ending.firstLine_eq (ends : Ending line ending rest) (within : '\n' ∉ line) :
    firstLine (line ++ (ending ++ rest)) = line ∧ afterFirst (line ++ (ending ++ rest)) = rest := by
  cases ends with
  | last =>
    rw [List.append_nil, List.append_nil]
    exact firstLine_of_last within
  | feed _ plain =>
    rw [List.singleton_append, firstLine_append within, afterFirst_append within, withoutReturn,
      if_neg plain]
    exact ⟨rfl, rfl⟩
  | returnFeed =>
    have longer : '\n' ∉ line ++ ['\r'] := by simpa using within
    have split : line ++ (['\r', '\n'] ++ rest) = (line ++ ['\r']) ++ '\n' :: rest := by simp
    rw [split, firstLine_append longer, afterFirst_append longer, withoutReturn,
      if_pos List.getLast?_concat, List.dropLast_concat]
    exact ⟨rfl, rfl⟩

theorem Ending.rest_eq_nil (ends : Ending line ending rest) (nothing : line ++ ending = []) :
    rest = [] := by
  cases ends with
  | last => rfl
  | feed => simp at nothing
  | returnFeed => simp at nothing

/-- The first line is the one that, with what ends it, is the first stretch of the text. -/
theorem firstLine_eq_iff : firstLine text = line ↔
    '\n' ∉ line ∧ ∃ ending, Ending line ending (afterFirst text) ∧
      stretch text = line ++ ending := by
  have whole : stretch text ++ afterFirst text = text := takeWhile_append_afterFirst text
  constructor
  · rintro rfl
    obtain ⟨within, ending, ends, split⟩ := exists_ending text
    have same : stretch text ++ afterFirst text =
        (firstLine text ++ ending) ++ afterFirst text := by
      rw [whole, List.append_assoc, ← split]
    exact ⟨within, ending, ends, List.append_cancel_right same⟩
  · rintro ⟨within, ending, ends, split⟩
    have found := (ends.firstLine_eq within).1
    rwa [← List.append_assoc, ← split, whole] at found

/-- A text cut into lines, each with what ends it. None of them is empty together with
its end. -/
inductive Cut : List Char → List (List Char × List Char) → Prop
  | done : Cut [] []
  | next {line ending rest : List Char} {parts : List (List Char × List Char)}
      (within : '\n' ∉ line) (ends : Ending line ending rest) (more : line ++ ending ≠ [])
      (others : Cut rest parts) :
    Cut (line ++ (ending ++ rest)) ((line, ending) :: parts)

theorem exists_cut (text : List Char) : ∃ parts, Cut text parts := by
  induction length : text.length using Nat.strongRecOn generalizing text with
  | ind n ih =>
    by_cases empty : text = []
    · rw [empty]
      exact ⟨[], .done⟩
    · obtain ⟨within, ending, ends, split⟩ := exists_ending text
      have more : firstLine text ++ ending ≠ [] := by
        intro nothing
        apply empty
        rw [split, ← List.append_assoc, nothing, ends.rest_eq_nil nothing, List.nil_append]
      have shorter : (afterFirst text).length < n := by
        have count := congrArg List.length split
        have pos := List.length_pos_iff.mpr more
        simp only [List.length_append] at count pos
        omega
      obtain ⟨parts, others⟩ := ih _ shorter (afterFirst text) rfl
      rw [split]
      exact ⟨_, .next within ends more others⟩

namespace Cut

variable {parts : List (List Char × List Char)}

theorem flatMap_eq (cut : Cut text parts) :
    parts.flatMap (fun part => part.1 ++ part.2) = text := by
  induction cut with
  | done => rfl
  | next within ends more others ih => rw [List.flatMap_cons, ih, List.append_assoc]

/-- The line at an index is the part at this index, without its end. -/
theorem nth?_eq (cut : Cut text parts) (index : Nat) :
    nth? text index = parts[index]?.map Prod.fst := by
  induction cut generalizing index with
  | done => cases index <;> rfl
  | @next line ending rest parts within ends more others ih =>
    obtain ⟨first, after⟩ := ends.firstLine_eq within
    cases index with
    | zero =>
      have some : line ++ (ending ++ rest) ≠ [] := by
        rw [← List.append_assoc]
        exact List.append_ne_nil_of_left_ne_nil more rest
      rw [nth?_zero some, first]
      rfl
    | succ index => rw [nth?_succ, after, ih, List.getElem?_cons_succ]

end Cut

theorem rtakeWhile_eq_nil_iff (text : List Char) :
    text.rtakeWhile inside = [] ↔ text = [] ∨ text.getLast? = some '\n' := by
  rcases List.eq_nil_or_concat text with rfl | ⟨front, c, rfl⟩
  · simp
  · by_cases feed : c = '\n'
    · simp [inside, feed]
    · simp [inside, feed]

end Lines

namespace Source

variable (s : Source)

/-- The text from the line of an offset on: it starts as far in front of the offset as the
column says. -/
def fromLine (offset : Nat) : List Char :=
  s.chars.drop (min offset s.chars.length - (s.locate offset).column)

theorem column_le (offset : Nat) : (s.locate offset).column ≤ min offset s.chars.length := by
  have sum := s.offset_eq_add_column offset
  omega

/-- Counting finds the line that cutting finds first in the text from there on. -/
theorem lineOf?_eq (span : Span) :
    s.lineOf? span = (Lines.nth? (s.fromLine span.start) 0).map String.ofList := by
  obtain ⟨lines, current, front⟩ := s.exists_front span.start
  have start : min span.start s.chars.length - (s.locate span.start).column =
      (Lines.ended lines).length := by
    rw [front.length_eq, front.locate_eq, Nat.add_sub_cancel]
  have tail : s.fromLine span.start = current ++ s.chars.drop span.start := by
    rw [fromLine, start]
    nth_rewrite 1 [front.chars_eq]
    exact List.drop_left
  rw [lineOf?, front.line?_eq, tail]

/-- There is no text from the line on only at the end, where the last line is ended. -/
theorem fromLine_eq_nil_iff (offset : Nat) : s.fromLine offset = [] ↔
    s.chars.length ≤ offset ∧ (s.chars = [] ∨ s.chars.getLast? = some '\n') := by
  have column : (s.locate offset).column =
      ((s.chars.take offset).rtakeWhile Lines.inside).length := Location.column_foldl_past _
  rw [fromLine, List.drop_eq_nil_iff]
  constructor
  · intro short
    have behind : s.chars.length ≤ offset := by omega
    rw [List.take_of_length_le behind] at column
    refine ⟨behind, ?_⟩
    by_cases empty : s.chars = []
    · exact Or.inl empty
    · have pos := List.length_pos_iff.mpr empty
      rw [← Lines.rtakeWhile_eq_nil_iff, ← List.length_eq_zero_iff, ← column]
      omega
  · rintro ⟨behind, last⟩
    rw [List.take_of_length_le behind, (Lines.rtakeWhile_eq_nil_iff _).mpr last,
      List.length_nil] at column
    omega

theorem lineOf?_eq_none_iff (span : Span) : s.lineOf? span = none ↔
    s.chars.length ≤ span.start ∧ (s.chars = [] ∨ s.chars.getLast? = some '\n') := by
  rw [lineOf?_eq, Option.map_eq_none_iff, ← fromLine_eq_nil_iff]
  constructor
  · intro missing
    by_contra more
    rw [Lines.nth?_zero more] at missing
    exact nomatch missing
  · intro empty
    rw [empty]
    rfl

theorem lineOf?_eq_some_iff (span : Span) (line : String) : s.lineOf? span = some line ↔
    s.fromLine span.start ≠ [] ∧ '\n' ∉ line.toList ∧
    ∃ ending, Lines.Ending line.toList ending (Lines.afterFirst (s.fromLine span.start)) ∧
      Lines.stretch (s.fromLine span.start) = line.toList ++ ending := by
  rw [lineOf?_eq, ← Lines.firstLine_eq_iff]
  by_cases empty : s.fromLine span.start = []
  · simp [empty, Lines.nth?]
  · rw [Lines.nth?_zero empty, Option.map_some, Option.some_inj]
    constructor
    · rintro rfl
      exact ⟨empty, String.toList_ofList.symm⟩
    · rintro ⟨-, first⟩
      rw [first, String.ofList_toList]

/-- Cutting a text into lines agrees with counting its line feeds. The line of a span is missing
exactly where the span starts at or behind the end of the text and no line has begun there;
otherwise it starts as far in front of the span as the column says. Lines have no line feed,
and all lines, each with what ends it, are the text. -/
theorem lines_agree_with_places :
    (∀ span : Span,
      (s.lineOf? span = none ↔
        s.chars.length ≤ span.start ∧ (s.chars = [] ∨ s.chars.getLast? = some '\n')) ∧
      (s.locate span.start).column ≤ min span.start s.chars.length ∧
      ∀ line, s.lineOf? span = some line ↔
        s.fromLine span.start ≠ [] ∧ '\n' ∉ line.toList ∧
        ∃ ending, Lines.Ending line.toList ending (Lines.afterFirst (s.fromLine span.start)) ∧
          Lines.stretch (s.fromLine span.start) = line.toList ++ ending) ∧
    ∃ parts, Lines.Cut s.chars parts ∧
      (∀ index, s.line? index = parts[index]?.map fun part => String.ofList part.1) ∧
      parts.flatMap (fun part => part.1 ++ part.2) = s.chars := by
  constructor
  · intro span
    exact ⟨s.lineOf?_eq_none_iff span, s.column_le span.start, s.lineOf?_eq_some_iff span⟩
  · obtain ⟨parts, cut⟩ := Lines.exists_cut s.chars
    refine ⟨parts, cut, ?_, cut.flatMap_eq⟩
    intro index
    rw [line?, cut.nth?_eq, Option.map_map]
    rfl

end Source

end SpannedParsing
