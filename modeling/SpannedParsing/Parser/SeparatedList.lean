import SpannedParsing.Parser.Repetition
import SpannedParsing.Parser.Sequencing

/-!
# Lists with separators

A list is a first item followed by pairs of a separator and an item. A single
separator may be allowed in front and behind. A list without items consumes
nothing, so a separator in front of no item is given back.
-/
namespace SpannedParsing

/-- What a list allows and asks for: one separator in front of the first item, one behind
the last item, and a least number of items. -/
structure ListForm where
  leading : Bool := false
  trailing : Bool := false
  atLeast : Nat := 0
  deriving DecidableEq

namespace Parser

variable {ι α σ ε : Type}

/-- Step over one match, where that is allowed and there is one. -/
def skipIf (allowed : Bool) (p : Parser ι σ ε) : Parser ι Unit ε :=
  if allowed then p.branch (fun _ => succeed ()) (succeed ()) else succeed ()

/-- Report that a list has too few items after its first one, and miss. -/
def tooShort (atLeast : Nat) : Parser ι α ε := fun cursor =>
  some ⟨.noMatch, [.listTooShort cursor.position atLeast]⟩

/-- Match the empty list where nothing is asked for, at the given cursor. -/
def noItems (atLeast : Nat) (start : Cursor ι) : Parser ι (List α) ε := ofOutcome fun _ =>
  if atLeast = 0 then .matched [] start else .noMatch

/-- The items of a list with separators. -/
def separated (item : Parser ι α ε) (separator : Parser ι σ ε) (form : ListForm) :
    Parser ι (List α) ε := fun start =>
  (skipIf form.leading separator).andThen (fun _ =>
    item.branch
      (fun first =>
        (repeated (separator.keepRight item) (form.atLeast - 1)).branch
          (fun more => (skipIf form.trailing separator).map fun _ => first :: more)
          (tooShort form.atLeast))
      (noItems form.atLeast start)) start

@[simp] theorem skipIf_false (p : Parser ι σ ε) : skipIf false p = succeed () := rfl

@[simp] theorem tooShort_apply (n : Nat) (c : Cursor ι) :
    (tooShort n : Parser ι α ε) c = some ⟨.noMatch, [.listTooShort c.position n]⟩ := rfl

end Parser

end SpannedParsing
