import SpannedParsing.Grammar.Basic
import SpannedParsing.Value.Shaping

/-!
# Grammars chosen by a value

What can follow a part when the choice depends on the value found there. Each
of these takes that value and gives the grammar to go on with.
-/
namespace SpannedParsing.Grammar

variable {ρ ε : Type}

/-- As many items as the value says. -/
def counted (value : Value Item) : Grammar ρ Item ε := take value.amount

/-- The items of the value once more. -/
def again (value : Value Item) : Grammar ρ Item ε := .sequence value.items

/-- The grammar listed first under this value. -/
def switch (cases : List (Value Item × Grammar ρ Item ε)) (value : Value Item) :
    Grammar ρ Item ε :=
  match cases.find? fun entry => decide (entry.1 = value) with
  | some (_, g) => g
  | none => miss

/-- The value's text read as a decimal number, or an error. -/
def number (error : ε) (value : Value Item) : Grammar ρ Item ε :=
  match Value.readWord? value.text with
  | some n => succeed (.int n)
  | none => raise error

end SpannedParsing.Grammar
