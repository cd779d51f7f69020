import SpannedParsing.Text.Hidden

/-!
# Quoted characters and texts

A quoted text stands between two equal marks on one line. A backslash stands in
front of what would not be read back as it is: that mark, the backslash itself,
the common control characters by a letter, and every other hidden character by
its code point in hexadecimal. A quote that is not the mark stands for itself.
-/
namespace SpannedParsing.Text

/-- A code point in hexadecimal, between braces. -/
def codePoint (c : Char) : List Char :=
  '\\' :: 'u' :: '\x7b' :: Nat.toDigits 16 c.toNat ++ ['\x7d']

/-- A character as it stands in a text between two marks. -/
def escape (mark : Char) (c : Char) : List Char :=
  if c = '\x00' then ['\\', '0']
  else if c = '\t' then ['\\', 't']
  else if c = '\r' then ['\\', 'r']
  else if c = '\n' then ['\\', 'n']
  else if c = '\\' then ['\\', '\\']
  else if c = mark then ['\\', c]
  else if isHidden c then codePoint c
  else [c]

def quoted (mark : Char) (text : String) : String :=
  String.ofList (mark :: text.toList.flatMap (escape mark) ++ [mark])

def quotedChar (c : Char) : String := quoted '\'' c.toString

def quotedText (text : String) : String := quoted '"' text

end SpannedParsing.Text
