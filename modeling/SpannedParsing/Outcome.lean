import SpannedParsing.Cursor

/-!
# Outcomes

A parser matches, does not match, or fails with an error. The second leaves
other parsers to try; the third is final. `Failure` is what is left of the
last two when only a match is wanted.
-/
namespace SpannedParsing

/-- What a parser finds at a cursor: a value and the cursor after it, or nothing, or an error
and where it is reported. -/
inductive Outcome (ι α ε : Type) where
  | matched (value : α) (rest : Cursor ι)
  | noMatch
  | errored (error : ε) (span : Span)

inductive Failure (ε : Type) where
  | noMatch
  | errored (error : ε) (span : Span)
  deriving DecidableEq

namespace Failure

variable {ε : Type}

/-- Where the failure is reported, if it is an error. -/
def span? : Failure ε → Option Span
  | noMatch => none
  | errored _ span => some span

def message (render : ε → String) : Failure ε → String
  | noMatch => "input did not match"
  | errored error span => render error ++ " at " ++ span.render

end Failure

namespace Outcome

variable {ι α β γ ε : Type}

def isMatched : Outcome ι α ε → Bool
  | matched .. => true
  | _ => false

def isNoMatch : Outcome ι α ε → Bool
  | noMatch => true
  | _ => false

def isErrored : Outcome ι α ε → Bool
  | errored .. => true
  | _ => false

/-- Change the value of a match. -/
def map (f : α → β) : Outcome ι α ε → Outcome ι β ε
  | matched value rest => matched (f value) rest
  | noMatch => noMatch
  | errored error span => errored error span

/-- Go on after a match. -/
def andThen (o : Outcome ι α ε) (f : α → Cursor ι → Outcome ι β ε) : Outcome ι β ε :=
  match o with
  | matched value rest => f value rest
  | noMatch => noMatch
  | errored error span => errored error span

def matched? : Outcome ι α ε → Option (α × Cursor ι)
  | matched value rest => some (value, rest)
  | _ => none

/-- A match, or why there is none. -/
def toExcept : Outcome ι α ε → Except (Failure ε) (α × Cursor ι)
  | matched value rest => .ok (value, rest)
  | noMatch => .error .noMatch
  | errored error span => .error (.errored error span)

/-- The same kind of outcome with the same content. -/
def same [DecidableEq ι] [BEq α] [BEq ε] : Outcome ι α ε → Outcome ι α ε → Bool
  | matched a c, matched b d => a == b && c.same d
  | noMatch, noMatch => true
  | errored e s, errored f t => e == f && decide (s = t)
  | _, _ => false

@[simp] theorem map_matched (f : α → β) (a : α) (c : Cursor ι) :
    (matched a c : Outcome ι α ε).map f = matched (f a) c := rfl

@[simp] theorem map_noMatch (f : α → β) : (noMatch : Outcome ι α ε).map f = noMatch := rfl

@[simp] theorem map_errored (f : α → β) (e : ε) (s : Span) :
    (errored e s : Outcome ι α ε).map f = errored e s := rfl

@[simp] theorem map_id (o : Outcome ι α ε) : o.map id = o := by cases o <;> rfl

@[simp] theorem map_map (f : α → β) (g : β → γ) (o : Outcome ι α ε) :
    (o.map f).map g = o.map (g ∘ f) := by cases o <;> rfl

end Outcome

end SpannedParsing
