/-!
# Items of texts and token lists

A text has characters for items; a token list has numbers and words. The
classes of characters are the ASCII ones, and no token belongs to them.
-/
namespace SpannedParsing

/-- A character of a text, or a token. -/
inductive Item where
  | char (c : Char)
  | number (n : Int)
  | word (text : String)
  deriving DecidableEq

namespace Item

def text : Item → String
  | char c => c.toString
  | number n => toString n
  | word s => s

/-- The value of a decimal digit, the value of a number that is not negative,
and zero for everything else. -/
def amount : Item → Nat
  | char c => if c.isDigit then c.toNat - '0'.toNat else 0
  | number n => n.toNat
  | word _ => 0

def isNumber : Item → Bool
  | number _ => true
  | _ => false

/-- Whether the item is an even number token. -/
def isEven : Item → Bool
  | number n => n % 2 == 0
  | _ => false

def isCharOf (test : Char → Bool) : Item → Bool
  | char c => test c
  | _ => false

def isDigit : Item → Bool := isCharOf Char.isDigit

def isAlpha : Item → Bool := isCharOf Char.isAlpha

def isAlphanum : Item → Bool := isCharOf Char.isAlphanum

def isLower : Item → Bool := isCharOf Char.isLower

def isUpper : Item → Bool := isCharOf Char.isUpper

/-- Whether the item is a space, a tab or the end of a line. -/
def isSpace : Item → Bool := isCharOf fun c => c ∈ [' ', '\t', '\n', '\r']

/-- Whether the item lies between two others of its kind, both included. Words
have no order. -/
def inRange (low high : Item) : Item → Bool
  | char c =>
    match low, high with
    | char a, char b => a ≤ c && c ≤ b
    | _, _ => false
  | number n =>
    match low, high with
    | number a, number b => a ≤ n && n ≤ b
    | _, _ => false
  | word _ => false

end Item

end SpannedParsing
