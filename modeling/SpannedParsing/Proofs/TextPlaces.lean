import Mathlib.Data.List.TakeWhile
import SpannedParsing.Source

/-!
# Places in a text

A place is found by two scans that know nothing of each other. `locate` goes through the
characters and counts line feeds; `line?` cuts off one line after the other, and strips
a carriage return from its end. What both see of a text up to an offset is the same: some
lines that are ended, and the beginning of one more line (`exists_ended`). The number of
ended lines is the index of the line, and the characters after them are the column.
-/
namespace SpannedParsing

namespace Lines

variable {line current : List Char} {lines : List (List Char)}

/-- Lines below each other, each ended by a line feed. -/
def ended (lines : List (List Char)) : List Char := lines.flatMap (· ++ ['\n'])

@[simp] theorem ended_nil : ended [] = [] := rfl

@[simp] theorem ended_cons (line : List Char) (lines : List (List Char)) :
    ended (line :: lines) = line ++ '\n' :: ended lines := by
  simp [ended]

/-- Every text consists of ended lines and the beginning of one more. -/
theorem exists_ended (text : List Char) : ∃ lines current, text = ended lines ++ current ∧
    (∀ line ∈ lines, '\n' ∉ line) ∧ '\n' ∉ current := by
  induction text with
  | nil => exact ⟨[], [], rfl, by simp, by simp⟩
  | cons c text ih =>
    obtain ⟨lines, current, rfl, within, last⟩ := ih
    by_cases feed : c = '\n'
    · refine ⟨[] :: lines, current, by simp [feed], ?_, last⟩
      simpa using within
    · have other : '\n' ≠ c := Ne.symm feed
      cases lines with
      | nil => exact ⟨[], c :: current, rfl, by simp, by simp [other, last]⟩
      | cons line lines =>
        refine ⟨(c :: line) :: lines, current, rfl, ?_, last⟩
        simpa [other] using within

theorem inside_of_mem (within : '\n' ∉ line) {c : Char} (mem : c ∈ line) : inside c = true := by
  have other : c ≠ '\n' := by
    intro same
    exact within (same ▸ mem)
  simpa [inside] using other

theorem dropWhile_append (within : '\n' ∉ line) (rest : List Char) :
    (line ++ '\n' :: rest).dropWhile inside = '\n' :: rest := by
  rw [List.dropWhile_append_of_pos fun c mem => inside_of_mem within mem]
  rfl

theorem afterFirst_append (within : '\n' ∉ line) (rest : List Char) :
    afterFirst (line ++ '\n' :: rest) = rest := by
  rw [afterFirst, dropWhile_append within]
  rfl

theorem takeWhile_append (within : '\n' ∉ line) (rest : List Char) :
    (line ++ '\n' :: rest).takeWhile inside = line := by
  rw [List.takeWhile_append_of_pos fun c mem => inside_of_mem within mem]
  simp [inside]

theorem firstLine_append (within : '\n' ∉ line) (rest : List Char) :
    firstLine (line ++ '\n' :: rest) = withoutReturn line := by
  unfold firstLine
  rw [dropWhile_append within, takeWhile_append within]
  rfl

/-- A text without line feeds is one line. -/
theorem firstLine_of_last (within : '\n' ∉ current) :
    firstLine current = current ∧ afterFirst current = [] := by
  have taken : current.takeWhile inside = current :=
    List.takeWhile_eq_self_iff.mpr fun c mem => inside_of_mem within mem
  have dropped : current.dropWhile inside = [] :=
    List.dropWhile_eq_nil_iff.mpr fun c mem => inside_of_mem within mem
  unfold firstLine afterFirst
  rw [taken, dropped]
  exact ⟨rfl, rfl⟩

theorem nth?_zero {text : List Char} (more : text ≠ []) : nth? text 0 = some (firstLine text) := by
  cases text with
  | nil => exact absurd rfl more
  | cons c text => rfl

theorem nth?_succ (text : List Char) (index : Nat) :
    nth? text (index + 1) = nth? (afterFirst text) index := by
  cases text with
  | nil => cases index <;> rfl
  | cons c text => rfl

/-- Behind ended lines, their number is the index of the next line. -/
theorem nth?_ended_append (within : ∀ line ∈ lines, '\n' ∉ line) (rest : List Char) :
    nth? (ended lines ++ rest) lines.length = nth? rest 0 := by
  induction lines with
  | nil => rfl
  | cons line lines ih =>
    have first : '\n' ∉ line := within line List.mem_cons_self
    have others := ih fun other mem => within other (List.mem_cons_of_mem line mem)
    rw [ended_cons, List.append_assoc, List.cons_append, List.length_cons, nth?_succ,
      afterFirst_append first, others]

/-- What may stand between a line and the rest of the text: a line feed, with a carriage
return in front of it if there is one. Only the last line may have no end. -/
inductive Ending (line : List Char) : List Char → List Char → Prop
  | last : Ending line [] []
  | feed (rest : List Char) (plain : line.getLast? ≠ some '\r') : Ending line ['\n'] rest
  | returnFeed (rest : List Char) : Ending line ['\r', '\n'] rest

/-- The first line, what ends it and the other lines are the whole text. -/
theorem exists_ending (text : List Char) : '\n' ∉ firstLine text ∧
    ∃ ending, Ending (firstLine text) ending (afterFirst text) ∧
      text = firstLine text ++ (ending ++ afterFirst text) := by
  obtain ⟨lines, current, rfl, within, last⟩ := exists_ended text
  cases lines with
  | nil =>
    obtain ⟨whole, nothing⟩ := firstLine_of_last last
    rw [ended_nil, List.nil_append, whole, nothing]
    exact ⟨last, [], .last, by simp⟩
  | cons line lines =>
    have first : '\n' ∉ line := within line List.mem_cons_self
    rw [ended_cons, List.append_assoc, List.cons_append, firstLine_append first,
      afterFirst_append first]
    unfold withoutReturn
    by_cases stripped : line.getLast? = some '\r'
    · obtain ⟨front, rfl⟩ := List.getLast?_eq_some_iff.mp stripped
      have shorter : '\n' ∉ front := fun mem => first (List.mem_append_left _ mem)
      rw [if_pos stripped, List.dropLast_concat]
      exact ⟨shorter, ['\r', '\n'], .returnFeed _, by simp⟩
    · rw [if_neg stripped]
      exact ⟨first, ['\n'], .feed _ stripped, by simp⟩

/-- The character at an index belongs to the end of a line. -/
def EndsLine (text : List Char) (i : Nat) : Prop :=
  text[i]? = some '\n' ∨ text[i]? = some '\r' ∧ text[i + 1]? = some '\n'

instance (text : List Char) (i : Nat) : Decidable (EndsLine text i) :=
  inferInstanceAs (Decidable (_ ∨ _))

theorem endsLine_append (before text : List Char) (i : Nat) :
    EndsLine (before ++ text) (before.length + i) ↔ EndsLine text i := by
  unfold EndsLine
  rw [Nat.add_assoc, List.getElem?_append_right (by omega), List.getElem?_append_right (by omega)]
  simp

namespace Ending

variable {ending rest : List Char} {k : Nat}

/-- The characters of the line do not belong to its end. -/
theorem not_endsLine (h : Ending line ending rest) (within : '\n' ∉ line) (lt : k < line.length) :
    ¬ EndsLine (line ++ (ending ++ rest)) k := by
  have notFeed (j : Nat) (lt : j < line.length) : (line ++ (ending ++ rest))[j]? ≠ some '\n' := by
    rw [List.getElem?_append_left lt]
    intro feed
    exact within (List.mem_of_getElem? feed)
  rintro (feed | ⟨back, feed⟩)
  · exact notFeed k lt feed
  · have last : k + 1 = line.length := by
      by_contra other
      exact notFeed (k + 1) (by omega) feed
    rw [last, List.getElem?_append_right (Nat.le_refl _), Nat.sub_self] at feed
    cases h with
    | last => simp at feed
    | feed _ plain =>
      apply plain
      rw [List.getLast?_eq_getElem?, ← last]
      rwa [List.getElem?_append_left lt] at back
    | returnFeed => simp at feed

/-- What follows the line belongs to its end, up to the first line feed. -/
theorem endsLine (h : Ending line ending rest) (bound : k < (ending ++ rest).length)
    (first : '\n' ∉ (ending ++ rest).take k) : EndsLine (ending ++ rest) k := by
  cases h with
  | last => simp at bound
  | feed =>
    cases k with
    | zero => simp [EndsLine]
    | succ k => simp at first
  | returnFeed =>
    match k with
    | 0 => simp [EndsLine]
    | 1 => simp [EndsLine]
    | k + 2 => simp at first

end Ending

/-- The first line has the characters of the text at the same columns, except for those
of its end. -/
theorem getElem?_firstLine {text : List Char} {column : Nat}
    (first : '\n' ∉ text.take column) (bound : column < text.length) :
    (firstLine text)[column]? = if EndsLine text column then none else text[column]? := by
  obtain ⟨within, ending, kind, whole⟩ := exists_ending text
  generalize firstLine text = line at within kind whole ⊢
  generalize afterFirst text = rest at kind whole
  subst whole
  by_cases before : column < line.length
  · rw [if_neg (kind.not_endsLine within before), List.getElem?_append_left before]
  · obtain ⟨k, rfl⟩ : ∃ k, column = line.length + k := ⟨column - line.length, by omega⟩
    rw [List.take_length_add_append, List.mem_append, not_or] at first
    rw [List.length_append] at bound
    have atEnd := kind.endsLine (by omega) first.2
    rw [if_pos ((endsLine_append line _ k).mpr atEnd)]
    exact List.getElem?_eq_none (by omega)

end Lines

namespace Location

open Lines

theorem line_foldl_past (text : List Char) (l : Location) :
    (text.foldl past l).line = l.line + text.count '\n' := by
  induction text generalizing l with
  | nil => rfl
  | cons c text ih =>
    rw [List.foldl_cons, ih, past]
    by_cases feed : c = '\n'
    · rw [if_pos feed, feed, List.count_cons_self]
      show l.line + 1 + text.count '\n' = l.line + (text.count '\n' + 1)
      omega
    · rw [if_neg feed, List.count_cons_of_ne feed]

theorem foldl_past_of_inside {current : List Char} (within : '\n' ∉ current) (l : Location) :
    current.foldl past l = ⟨l.line, l.column + current.length⟩ := by
  induction current generalizing l with
  | nil => rfl
  | cons c current ih =>
    have other : c ≠ '\n' := fun same => within (same ▸ List.mem_cons_self)
    have rest : '\n' ∉ current := fun mem => within (List.mem_cons_of_mem c mem)
    rw [List.foldl_cons, ih rest, past, if_neg other, List.length_cons, Nat.add_right_comm,
      Nat.add_assoc]

theorem foldl_past_ended {lines : List (List Char)} (within : ∀ line ∈ lines, '\n' ∉ line)
    (n : Nat) : (ended lines).foldl past ⟨n, 0⟩ = ⟨n + lines.length, 0⟩ := by
  induction lines generalizing n with
  | nil => rfl
  | cons line lines ih =>
    have first : '\n' ∉ line := within line List.mem_cons_self
    have others := ih fun other mem => within other (List.mem_cons_of_mem line mem)
    rw [ended_cons, List.foldl_append, foldl_past_of_inside first, List.foldl_cons, past,
      if_pos rfl, others, List.length_cons, Nat.add_assoc, Nat.add_comm 1]

theorem foldl_past_ended_append {lines : List (List Char)} {current : List Char}
    (within : ∀ line ∈ lines, '\n' ∉ line) (last : '\n' ∉ current) :
    (ended lines ++ current).foldl past start = ⟨lines.length + 1, current.length⟩ := by
  rw [List.foldl_append, start, foldl_past_ended within, foldl_past_of_inside last,
    Nat.zero_add, Nat.add_comm]

end Location

namespace Source

/-- A line shows the place of an offset: it is the line that is found by the number of
line feeds in front of the offset, and it has the character of the text at the column,
unless that character belongs to the end of the line. -/
structure Shows (s : Source) (offset : Nat) (line : String) : Prop where
  number : (s.locate offset).line = (s.chars.take offset).count '\n' + 1
  found : s.line? ((s.locate offset).line - 1) = some line
  char : line.toList[(s.locate offset).column]? =
    if Lines.EndsLine s.chars offset then none else s.chars[offset]?

/-- What stands in front of an offset: ended lines, and the beginning of one more. -/
structure Front (s : Source) (offset : Nat) (lines : List (List Char)) (current : List Char) :
    Prop where
  within : ∀ line ∈ lines, '\n' ∉ line
  last : '\n' ∉ current
  taken : s.chars.take offset = Lines.ended lines ++ current

theorem exists_front (s : Source) (offset : Nat) :
    ∃ lines current, s.Front offset lines current := by
  obtain ⟨lines, current, split, within, last⟩ := Lines.exists_ended (s.chars.take offset)
  exact ⟨lines, current, within, last, split⟩

namespace Front

variable {s : Source} {offset : Nat} {lines : List (List Char)} {current : List Char}

/-- The ended lines are the line number, and what follows them is the column. -/
theorem locate_eq (front : s.Front offset lines current) :
    s.locate offset = ⟨lines.length + 1, current.length⟩ := by
  rw [locate, front.taken, Location.foldl_past_ended_append front.within front.last]

theorem length_eq (front : s.Front offset lines current) :
    min offset s.chars.length = (Lines.ended lines).length + current.length := by
  rw [← List.length_take, front.taken, List.length_append]

theorem chars_eq (front : s.Front offset lines current) :
    s.chars = Lines.ended lines ++ (current ++ s.chars.drop offset) := by
  rw [← List.append_assoc, ← front.taken, List.take_append_drop]

/-- The line at an offset is cut off where the ended lines stop. -/
theorem line?_eq (front : s.Front offset lines current) :
    s.line? ((s.locate offset).line - 1) =
      (Lines.nth? (current ++ s.chars.drop offset) 0).map String.ofList := by
  have cut := Lines.nth?_ended_append front.within (current ++ s.chars.drop offset)
  rw [← front.chars_eq] at cut
  rw [front.locate_eq, Nat.add_sub_cancel, line?, cut]

end Front

/-- Every offset inside a text is shown by a line. -/
theorem exists_shows (s : Source) {i : Nat} (bound : i < s.chars.length) :
    ∃ line, s.Shows i line := by
  obtain ⟨lines, current, front⟩ := s.exists_front i
  have index := front.length_eq
  rw [Nat.min_eq_left (Nat.le_of_lt bound)] at index
  have whole := front.chars_eq
  have found := front.line?_eq
  have more : 0 < (s.chars.drop i).length := by
    rw [List.length_drop]
    omega
  generalize s.chars.drop i = tail at whole found more
  rw [Lines.nth?_zero (List.append_ne_nil_of_right_ne_nil _ (List.ne_nil_of_length_pos more))]
    at found
  have shown : (Lines.firstLine (current ++ tail))[current.length]? =
      if Lines.EndsLine (current ++ tail) current.length then none
      else (current ++ tail)[current.length]? :=
    Lines.getElem?_firstLine (by simpa using front.last) (by simpa using more)
  have ends : Lines.EndsLine s.chars i ↔ Lines.EndsLine (current ++ tail) current.length := by
    rw [whole, index, Lines.endsLine_append]
  have same : s.chars[i]? = (current ++ tail)[current.length]? := by
    rw [whole, index, List.getElem?_append_right (by omega), Nat.add_sub_cancel_left]
  refine ⟨String.ofList (Lines.firstLine (current ++ tail)), ?_, found, ?_⟩
  · rw [locate, Location.line_foldl_past, Location.start, Nat.add_comm]
  · rw [front.locate_eq, String.toList_ofList, shown, same]
    simp only [ends]

end Source

end SpannedParsing
