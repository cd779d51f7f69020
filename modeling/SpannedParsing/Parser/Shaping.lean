import SpannedParsing.Parser.Basic

/-!
# Values of a match

These keep what a parser consumes and change or test its value.
-/
namespace SpannedParsing.Parser

variable {ι α β ε : Type}

/-- Miss where the value found does not pass a test. -/
def check (p : Parser ι α ε) (test : α → Bool) : Parser ι α ε :=
  p.andThen fun value => if test value then succeed value else miss

/-- The value together with the span of the items it was read from. -/
def spanned (p : Parser ι α ε) : Parser ι (Spanned α) ε := fun start =>
  p.andThen (fun value => ofOutcome fun rest =>
    .matched ⟨value, start.spanUntil rest⟩ rest) start

theorem check_apply (p : Parser ι α ε) (test : α → Bool) (c : Cursor ι) :
    p.check test c = (p c).map fun r => ⟨match r.outcome with
      | .matched a rest => if test a then .matched a rest else .noMatch
      | o => o, r.log⟩ := by
  rcases h : p c with _ | ⟨_ | _ | _, log⟩ <;> simp [check, andThen, branch, h, Reply.after]
  rename_i a rest
  cases test a <;> simp

theorem spanned_apply (p : Parser ι α ε) (c : Cursor ι) :
    p.spanned c = (p c).map fun r => ⟨match r.outcome with
      | .matched a rest => .matched ⟨a, c.spanUntil rest⟩ rest
      | .noMatch => .noMatch
      | .errored e s => .errored e s, r.log⟩ := by
  rcases h : p c with _ | ⟨_ | _ | _, log⟩ <;> simp [spanned, andThen, branch, h, Reply.after]

end SpannedParsing.Parser
