import SpannedParsing.Outcome
import SpannedParsing.Parser.SeparatedList
import SpannedParsing.Value

/-!
# Grammars

A grammar is a parser written down: a tree of combinators over items `ι` with
errors `ε`, in which rules are called by their names `ρ`. Its values are
`Value ι`. What a grammar parses is said in `Grammar.Meaning`; here is its
syntax, and an induction principle that reaches into lists of alternatives and
into the grammars that a context may choose.
-/
namespace SpannedParsing

/-- Which value a sequence of two parts has. -/
inductive Joining where
  | pair
  | right
  | left
  | cons
  deriving DecidableEq

/-- The value of a sequence. -/
def Joining.combine {ι : Type} : Joining → Value ι → Value ι → Value ι
  | pair, a, b => .pair a b
  | right, _, b => b
  | left, a, _ => a
  | cons, a, b => .list (a :: b.elements)

/-- Which value a part that may be missing has. -/
inductive Fallback (ι : Type) where
  | option
  | default (value : Value ι)
  | boolean

/-- The value of a part that was found. -/
def Fallback.found {ι : Type} : Fallback ι → Value ι → Value ι
  | option, v => .present v
  | default _, v => v
  | boolean, _ => .bool true

/-- The value of a part that is missing. -/
def Fallback.missing {ι : Type} : Fallback ι → Value ι
  | option => .absent
  | default v => v
  | boolean => .bool false

/-- A parser as a tree of combinators, with rules called by name. An answer is an outcome
computed from the cursor alone; a context goes on with a grammar that is chosen by the value
found and the cursor behind it. -/
inductive Grammar (ρ ι ε : Type) where
  | just (x : ι)
  | oneOf (xs : List ι)
  | satisfy (test : ι → Bool)
  | sequence (xs : List ι)
  | finish
  | answer (outcome : Cursor ι → Outcome ι (Value ι) ε)
  | both (joining : Joining) (p q : Grammar ρ ι ε)
  | orElse (p q : Grammar ρ ι ε)
  | firstOf (ps : List (Grammar ρ ι ε))
  | maybe (fallback : Fallback ι) (p : Grammar ρ ι ε)
  | require (p : Grammar ρ ι ε) (error : ε)
  | spanned (p : Grammar ρ ι ε)
  | map (f : Value ι → Value ι) (p : Grammar ρ ι ε)
  | check (p : Grammar ρ ι ε) (test : Value ι → Bool)
  | repeated (p : Grammar ρ ι ε) (atLeast : Nat)
  | separated (item separator : Grammar ρ ι ε) (form : ListForm)
  | withContext (p : Grammar ρ ι ε) (next : Value ι → Cursor ι → Grammar ρ ι ε)
  | call (rule : ρ)

namespace Grammar

variable {ρ ι ε : Type}

def replace (p : Grammar ρ ι ε) (value : Value ι) : Grammar ρ ι ε := .map (fun _ => value) p

/-- One of two values, by whether the part is found. -/
def select (p : Grammar ρ ι ε) (found missing : Value ι) : Grammar ρ ι ε :=
  .map (fun | .bool true => found | _ => missing) (.maybe .boolean p)

def delimited (p opening closing : Grammar ρ ι ε) : Grammar ρ ι ε :=
  .both .left (.both .right opening p) closing

def succeed (value : Value ι) : Grammar ρ ι ε := .answer fun cursor => .matched value cursor

def miss : Grammar ρ ι ε := .answer fun _ => .noMatch

/-- Fail with an error at the item consumed last. -/
def raise (error : ε) : Grammar ρ ι ε := .answer fun cursor => .errored error cursor.lastSpan

def seek (position : Nat) : Grammar ρ ι ε := .answer fun cursor =>
  .matched .unit (cursor.moveTo position)

/-- The next items, if there are that many. -/
def take (count : Nat) : Grammar ρ ι ε := .answer fun cursor =>
  match cursor.split? count with
  | some (xs, rest) => .matched (.ofItems xs) rest
  | none => .noMatch

section Induction

variable {motive : Grammar ρ ι ε → Prop}
  (just : ∀ x, motive (.just x))
  (oneOf : ∀ xs, motive (.oneOf xs))
  (satisfy : ∀ test, motive (.satisfy test))
  (sequence : ∀ xs, motive (.sequence xs))
  (finish : motive .finish)
  (answer : ∀ outcome, motive (.answer outcome))
  (both : ∀ joining p q, motive p → motive q → motive (.both joining p q))
  (orElse : ∀ p q, motive p → motive q → motive (.orElse p q))
  (firstOf : ∀ ps, (∀ p ∈ ps, motive p) → motive (.firstOf ps))
  (maybe : ∀ fallback p, motive p → motive (.maybe fallback p))
  (require : ∀ p error, motive p → motive (.require p error))
  (spanned : ∀ p, motive p → motive (.spanned p))
  (map : ∀ f p, motive p → motive (.map f p))
  (check : ∀ p test, motive p → motive (.check p test))
  (repeated : ∀ p atLeast, motive p → motive (.repeated p atLeast))
  (separated : ∀ item separator form, motive item → motive separator →
    motive (.separated item separator form))
  (withContext : ∀ p next, motive p → (∀ v c, motive (next v c)) →
    motive (.withContext p next))
  (call : ∀ rule, motive (.call rule))

include just oneOf satisfy sequence finish answer both orElse firstOf maybe require spanned map
  check repeated separated withContext call

/-- Induction on grammars: every part of a grammar, also an alternative in a
list and a grammar that a context chooses, may be assumed to have the property. -/
@[elab_as_elim]
theorem induct (g : Grammar ρ ι ε) : motive g :=
  @Grammar.rec ρ ι ε motive (fun ps => ∀ p ∈ ps, motive p)
    just oneOf satisfy sequence finish answer both orElse firstOf maybe
    (fun p error => require p error) spanned map (fun p test => check p test)
    (fun p atLeast => repeated p atLeast) (fun item separator form => separated item separator form)
    withContext call
    (fun _ h => nomatch h)
    (fun p ps hp hps q hq => by
      cases hq with
      | head => exact hp
      | tail _ h => exact hps q h)
    g

end Induction

end Grammar

end SpannedParsing
