import SpannedParsing.Input

/-!
# Source texts

A source text gives an input of its characters, and turns offsets back into
places that a reader can find. A line ends at a line feed, and a carriage return
directly in front of that line feed belongs to the line's end too. Nothing
follows the last line feed of a text that ends with one.
-/
namespace SpannedParsing

/-- A place in a text: the line, counted from one, and the characters before
the place in that line. -/
@[ext]
structure Location where
  line : Nat
  column : Nat
  deriving DecidableEq

/-- The place after one more character. -/
def Location.past (l : Location) (c : Char) : Location :=
  if c = '\n' then ⟨l.line + 1, 0⟩ else ⟨l.line, l.column + 1⟩

def Location.start : Location := ⟨1, 0⟩

namespace Lines

/-- Whether a character is inside a line. -/
def inside (c : Char) : Bool := c ≠ '\n'

/-- A line without the carriage return that belongs to its end. -/
def withoutReturn (line : List Char) : List Char :=
  if line.getLast? = some '\r' then line.dropLast else line

/-- The first line of a text, without its end. -/
def firstLine (text : List Char) : List Char :=
  let line := text.takeWhile inside
  if (text.dropWhile inside).isEmpty then line else withoutReturn line

/-- What follows the first line of a text and its end. -/
def afterFirst (text : List Char) : List Char := (text.dropWhile inside).drop 1

/-- The line at an index, counted from zero. -/
def nth? : List Char → Nat → Option (List Char)
  | [], _ => none
  | text, 0 => some (firstLine text)
  | text, index + 1 => nth? (afterFirst text) index

/-- The first line and what ends it stand in front of the other lines. -/
theorem takeWhile_append_afterFirst (text : List Char) :
    text.takeWhile inside ++ (text.dropWhile inside).take 1 ++ afterFirst text = text := by
  rw [afterFirst, List.append_assoc, List.take_append_drop, List.takeWhile_append_dropWhile]

end Lines

/-- A text and where it was read from. It is no longer than offsets reach. -/
structure Source where
  text : String
  path : Option Path
  length_le : text.length ≤ maxOffset

namespace Source

/-- A text from nowhere in particular. -/
def ofText (text : String) (fits : text.length ≤ maxOffset) : Source := ⟨text, none, fits⟩

def withPath (s : Source) (path : Path) : Source := { s with path := some path }

def chars (s : Source) : List Char := s.text.toList

theorem size_chars_le (s : Source) : s.chars.toArray.size ≤ maxOffset := by
  simpa [chars, String.length_toList] using s.length_le

/-- One item for each character, numbered from zero. -/
def input (s : Source) : Input Char :=
  { Input.numbered s.chars.toArray 0 s.size_chars_le with source := s.path }

/-- The line at an index, counted from zero, without its end. -/
def line? (s : Source) (index : Nat) : Option String :=
  (Lines.nth? s.chars index).map String.ofList

/-- The place of an offset; offsets behind the text are at its end. -/
def locate (s : Source) (offset : Nat) : Location :=
  (s.chars.take offset).foldl Location.past .start

/-- The line in which a span starts. -/
def lineOf? (s : Source) (span : Span) : Option String :=
  s.line? ((s.locate span.start).line - 1)

@[simp] theorem source_input (s : Source) : s.input.source = s.path := rfl

@[simp] theorem size_input (s : Source) : s.input.size = s.text.length := by
  simp [input, Input.size, Input.numbered, chars, String.length_toList]

@[simp] theorem locate_zero (s : Source) : s.locate 0 = .start := rfl

/-- Every offset behind the text is at its end. -/
theorem locate_of_length_le (s : Source) {offset : Nat} (h : s.chars.length ≤ offset) :
    s.locate offset = s.chars.foldl Location.past .start := by
  rw [locate, List.take_of_length_le h]

end Source

end SpannedParsing
