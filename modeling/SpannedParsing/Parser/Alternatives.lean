import SpannedParsing.Parser.Basic

/-!
# Alternatives and optional parsers

Only a miss makes the next alternative run, always at the cursor where the
first one started. An error is never tried away.
-/
namespace SpannedParsing.Parser

variable {ι α ε : Type}

/-- The first of several parsers that does not miss. -/
def firstOf : List (Parser ι α ε) → Parser ι α ε
  | [] => miss
  | p :: ps => p.orElse (firstOf ps)

/-- A value or nothing; never misses. -/
def optional (p : Parser ι α ε) : Parser ι (Option α) ε :=
  p.branch (fun a => succeed (some a)) (succeed none)

/-- A value or the default; never misses. -/
def orDefault (p : Parser ι α ε) (default : α) : Parser ι α ε :=
  p.orElse (succeed default)

/-- Whether the parser matches; never misses. -/
def boolean (p : Parser ι α ε) : Parser ι Bool ε :=
  p.branch (fun _ => succeed true) (succeed false)

@[simp] theorem firstOf_nil : (firstOf [] : Parser ι α ε) = miss := rfl

@[simp] theorem firstOf_cons (p : Parser ι α ε) (ps : List (Parser ι α ε)) :
    firstOf (p :: ps) = p.orElse (firstOf ps) := rfl

theorem firstOf_append (ps qs : List (Parser ι α ε)) :
    firstOf (ps ++ qs) = (firstOf ps).orElse (firstOf qs) := by
  induction ps with
  | nil => simp
  | cons p ps ih => simp [ih, orElse_assoc]

end SpannedParsing.Parser
