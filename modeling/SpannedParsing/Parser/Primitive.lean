import SpannedParsing.Parser.Basic

/-!
# Parsers for single items and fixed stretches

None of these reports anything or fails with an error. Items are compared by their
equality (`[DecidableEq ι]`, also in `Cursor.agrees`). A caller may have any test in its
place; what is said of `just`, `oneOf` and `sequence` is for tests that are the equality.
-/
namespace SpannedParsing.Parser

variable {ι ε : Type}

/-- Match the next item if it passes a test. -/
def satisfy (test : ι → Bool) : Parser ι ι ε := ofOutcome fun cursor =>
  match cursor.peek with
  | some found => if test found.item then .matched found.item cursor.next else .noMatch
  | none => .noMatch

def just [DecidableEq ι] (x : ι) : Parser ι ι ε := satisfy fun y => decide (y = x)

def oneOf [DecidableEq ι] (xs : List ι) : Parser ι ι ε := satisfy fun y => decide (y ∈ xs)

/-- Match the given items in order. No items never match. -/
def sequence [DecidableEq ι] (xs : List ι) : Parser ι (List ι) ε := ofOutcome fun cursor =>
  if cursor.startsWith xs then .matched xs (cursor.advance xs.length) else .noMatch

/-- Match where every item is consumed. -/
def finish : Parser ι Unit ε := ofOutcome fun cursor =>
  if cursor.atEnd then .matched () cursor else .noMatch

theorem satisfy_apply (test : ι → Bool) (c : Cursor ι) :
    (satisfy test : Parser ι ι ε) c = some ⟨match c.peek with
      | some found => if test found.item then .matched found.item c.next else .noMatch
      | none => .noMatch, []⟩ := rfl

@[simp] theorem sequence_nil [DecidableEq ι] : (sequence [] : Parser ι (List ι) ε) = miss := rfl

end SpannedParsing.Parser
