import SpannedParsing.Span

/-!
# Events

A parse reports three things that its outcome does not show. They are collected
in the order in which they happen.
-/
namespace SpannedParsing

inductive Level where
  | trace
  | debug
  deriving DecidableEq

def Level.name : Level → String
  | .trace => "TRACE"
  | .debug => "DEBUG"

/-- What a parse reports: a required parser that missed, with the span of its error; a list
that had too few items behind its first one, which ends at the position; a repetition that
ended because its body matched without moving on. -/
inductive Event where
  | requirementMissed (position : Nat) (span : Span)
  | listTooShort (position atLeast : Nat)
  | noProgress (position : Nat)
  deriving DecidableEq

namespace Event

inductive Field where
  | number (value : Nat)
  | text (value : String)
  deriving DecidableEq

def level : Event → Level
  | requirementMissed .. => .trace
  | listTooShort .. => .trace
  | noProgress .. => .debug

def message : Event → String
  | requirementMissed .. => "required parser did not match"
  | listTooShort .. => "separated list too short after first item"
  | noProgress .. => "zero-width match ends repetition"

/-- The named fields of a report. -/
def fields : Event → List (String × Field)
  | requirementMissed position span =>
    [("position", .number position), ("span", .text span.render)]
  | listTooShort position atLeast =>
    [("position", .number position), ("at_least", .number atLeast)]
  | noProgress position => [("position", .number position)]

def isRequirement : Event → Bool
  | requirementMissed .. => true
  | _ => false

end Event

end SpannedParsing
