import SpannedParsing.Parser.Basic

/-!
# Commitment

A required parser turns a miss into an error, which no alternative can take
back. The error is reported at the item consumed last.
-/
namespace SpannedParsing.Parser

variable {ι α ε : Type}

/-- Report a missed requirement and fail with its error. -/
def unmet (error : ε) : Parser ι α ε := fun cursor =>
  some ⟨.errored error cursor.lastSpan, [.requirementMissed cursor.position cursor.lastSpan]⟩

/-- Fail with an error where the parser misses. -/
def require (p : Parser ι α ε) (error : ε) : Parser ι α ε :=
  p.orElse (unmet error)

@[simp] theorem unmet_apply (e : ε) (c : Cursor ι) :
    (unmet e : Parser ι α ε) c =
      some ⟨.errored e c.lastSpan, [.requirementMissed c.position c.lastSpan]⟩ := rfl

end SpannedParsing.Parser
