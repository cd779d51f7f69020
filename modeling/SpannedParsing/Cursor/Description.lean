import SpannedParsing.Cursor
import SpannedParsing.Item
import SpannedParsing.Text.Quoted

/-!
# Cursors described in words

A one-line description of a cursor for messages: where it is, how many items
there are, the next item with its span, and the path.
-/
namespace SpannedParsing

/-- A named part of a description. -/
def describeField (name value : String) : String := name ++ ": " ++ value

/-- A record in a description: its name and its parts. -/
def describeRecord (name : String) (fields : List String) : String :=
  name ++ " \x7b " ++ ", ".intercalate fields ++ " \x7d"

/-- A part of a description that may be missing. -/
def describeOption {α : Type} (describe : α → String) : Option α → String
  | some value => "Some(" ++ describe value ++ ")"
  | none => "None"

def Span.describe (s : Span) : String :=
  describeRecord "Span"
    [describeField "start" (toString s.start), describeField "end" (toString s.stop)]

def Item.describe : Item → String
  | .char c => Text.quotedChar c
  | .number n => toString n
  | .word s => Text.quotedText s

def Path.describe (p : Path) : String := Text.quotedText p.text

def Spanned.describe (s : Spanned Item) : String :=
  describeRecord "Spanned"
    [describeField "item" s.item.describe, describeField "span" s.span.describe]

def Cursor.describe (c : Cursor Item) : String :=
  describeRecord "Stream"
    [describeField "position" (toString c.position),
      describeField "len" (toString c.items.size),
      describeField "next" (describeOption Spanned.describe c.peek),
      describeField "source" (describeOption Path.describe c.source)]

end SpannedParsing
