import SpannedParsing.Item
import SpannedParsing.Value
import SpannedParsing.Word

/-!
# Functions on values of texts and token lists

The functions that a grammar may apply to what it found. A value is read as
text, as a count or as an amount. The functions that shape a value are each
about one kind and leave the other kinds as they are. Numbers that they compute
are words, so they start again at zero after the largest one.
-/
namespace SpannedParsing.Value

mutual

/-- Append a value as text: items and texts in order, nothing for the rest. -/
def appendText (before : String) : Value Item → String
  | item x => before ++ x.text
  | str text => before ++ text
  | list values => appendTexts before values
  | pair first second => appendText (appendText before first) second
  | present value => appendText before value
  | spanned value _ => appendText before value
  | _ => before

def appendTexts (before : String) : List (Value Item) → String
  | [] => before
  | value :: values => appendTexts (appendText before value) values

end

def text (value : Value Item) : String := appendText "" value

/-- The number of elements of a list or characters of a text; nothing counts
as zero and everything else as one. -/
def count : Value Item → Nat
  | list values => values.length
  | str text => text.length
  | unit => 0
  | absent => 0
  | _ => 1

/-- The number that a value or an item stands for, or zero. -/
def amount : Value Item → Nat
  | int n => n
  | item x => x.amount
  | _ => 0

def first : Value Item → Value Item
  | pair first _ => first
  | value => value

def second : Value Item → Value Item
  | pair _ second => second
  | value => value

def reversed : Value Item → Value Item
  | list values => list values.reverse
  | value => value

/-- A list with the elements of its lists in their place. -/
def flattened : Value Item → Value Item
  | list values => list (values.flatMap elements)
  | value => value

def increased : Value Item → Value Item
  | int n => int (wrap (n + 1))
  | value => value

def sum : Value Item → Value Item
  | list values => int (values.foldl (fun total value => wrap (total + value.amount)) 0)
  | value => value

def decimal : Value Item → Value Item
  | list values => int (values.foldl (fun total value => wrap (total * 10 + value.amount)) 0)
  | value => value

def unspanned : Value Item → Value Item
  | spanned value _ => value
  | value => value

/-- The two ends of a value's span. -/
def ends : Value Item → Value Item
  | spanned _ span => pair (int span.start) (int span.stop)
  | value => value

def spanLength : Value Item → Value Item
  | spanned _ span => int span.length
  | value => value

/-- The decimal number of a text that has digits only, at least one, and fits a word. -/
def readWord? (text : String) : Option Nat :=
  let digits := text.toList
  if !digits.isEmpty && digits.all Char.isDigit then
    let n := digits.foldl (fun total c => total * 10 + (Item.char c).amount) 0
    if n < wordSize then some n else none
  else none

end SpannedParsing.Value
