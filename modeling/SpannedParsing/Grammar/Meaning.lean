import SpannedParsing.Grammar.Basic
import SpannedParsing.Parser.Primitive
import SpannedParsing.Parser.Recursion

/-!
# The meaning of a grammar

`denote` turns a grammar into a parser, given a parser for every rule. `run`
takes the rules from a table: a rule is what its grammar denotes, and a call
that is nested deeper than a given depth gives no reply. More depth never
changes a reply (`run_mono`), so the depth is no part of the answer.

`parse` needs no depth. While a rule runs at a cursor, the same rule cannot run
again at the same cursor without going round for ever; so a parse that ends
never nests more calls than there are pairs of a rule and a position.
-/
namespace SpannedParsing.Grammar

variable {ρ ι ε : Type} [DecidableEq ι]

mutual

/-- The parser of a grammar, given the parsers of the rules. -/
def denote (rules : ρ → Parser ι (Value ι) ε) : Grammar ρ ι ε → Parser ι (Value ι) ε
  | .just x, c => (Parser.just x).map .item c
  | .oneOf xs, c => (Parser.oneOf xs).map .item c
  | .satisfy test, c => (Parser.satisfy test).map .item c
  | .sequence xs, c => (Parser.sequence xs).map .ofItems c
  | .finish, c => Parser.finish.map (fun _ => .unit) c
  | .answer outcome, c => Parser.ofOutcome outcome c
  | .both joining p q, c =>
    (denote rules p).andThen (fun a => (denote rules q).map (joining.combine a)) c
  | .orElse p q, c => (denote rules p).orElse (denote rules q) c
  | .firstOf ps, c => Parser.firstOf (denoteAll rules ps) c
  | .maybe fallback p, c =>
    (denote rules p).branch (fun a => .succeed (fallback.found a)) (.succeed fallback.missing) c
  | .require p error, c => (denote rules p).require error c
  | .spanned p, c => (denote rules p).spanned.map .ofSpanned c
  | .map f p, c => (denote rules p).map f c
  | .check p test, c => (denote rules p).check test c
  | .repeated p atLeast, c => ((denote rules p).repeated atLeast).map .list c
  | .separated item separator form, c =>
    ((denote rules item).separated (denote rules separator) form).map .list c
  | .withContext p next, c =>
    ((denote rules p).withContext fun a rest => denote rules (next a rest)).map
      (fun r => .pair r.1 r.2) c
  | .call r, c => rules r c

def denoteAll (rules : ρ → Parser ι (Value ι) ε) :
    List (Grammar ρ ι ε) → List (Parser ι (Value ι) ε)
  | [] => []
  | p :: ps => denote rules p :: denoteAll rules ps

end

theorem denoteAll_eq_map (rules : ρ → Parser ι (Value ι) ε) (ps : List (Grammar ρ ι ε)) :
    denoteAll rules ps = ps.map (denote rules) := by
  induction ps with
  | nil => rfl
  | cons p ps ih => simp [denoteAll, ih]

section Equations

variable (rules : ρ → Parser ι (Value ι) ε)

@[simp] theorem denote_just (x : ι) :
    denote rules (.just x) = (Parser.just x).map .item := rfl

@[simp] theorem denote_oneOf (xs : List ι) :
    denote rules (.oneOf xs) = (Parser.oneOf xs).map .item := rfl

@[simp] theorem denote_satisfy (test : ι → Bool) :
    denote rules (.satisfy test) = (Parser.satisfy test).map .item := rfl

@[simp] theorem denote_sequence (xs : List ι) :
    denote rules (.sequence xs) = (Parser.sequence xs).map .ofItems := rfl

@[simp] theorem denote_finish :
    denote rules .finish = Parser.finish.map fun _ => .unit := rfl

@[simp] theorem denote_answer (outcome : Cursor ι → Outcome ι (Value ι) ε) :
    denote rules (.answer outcome) = Parser.ofOutcome outcome := rfl

@[simp] theorem denote_both (j : Joining) (p q : Grammar ρ ι ε) :
    denote rules (.both j p q) =
      (denote rules p).andThen fun a => (denote rules q).map (j.combine a) := rfl

@[simp] theorem denote_orElse (p q : Grammar ρ ι ε) :
    denote rules (.orElse p q) = (denote rules p).orElse (denote rules q) := rfl

@[simp] theorem denote_firstOf (ps : List (Grammar ρ ι ε)) :
    denote rules (.firstOf ps) = Parser.firstOf (ps.map (denote rules)) := by
  funext c
  rw [denote, denoteAll_eq_map]

@[simp] theorem denote_maybe (f : Fallback ι) (p : Grammar ρ ι ε) :
    denote rules (.maybe f p) =
      (denote rules p).branch (fun a => .succeed (f.found a)) (.succeed f.missing) := rfl

@[simp] theorem denote_require (p : Grammar ρ ι ε) (e : ε) :
    denote rules (.require p e) = (denote rules p).require e := rfl

@[simp] theorem denote_spanned (p : Grammar ρ ι ε) :
    denote rules (.spanned p) = (denote rules p).spanned.map .ofSpanned := rfl

@[simp] theorem denote_map (f : Value ι → Value ι) (p : Grammar ρ ι ε) :
    denote rules (.map f p) = (denote rules p).map f := rfl

@[simp] theorem denote_check (p : Grammar ρ ι ε) (test : Value ι → Bool) :
    denote rules (.check p test) = (denote rules p).check test := rfl

@[simp] theorem denote_repeated (p : Grammar ρ ι ε) (n : Nat) :
    denote rules (.repeated p n) = ((denote rules p).repeated n).map .list := rfl

@[simp] theorem denote_separated (p s : Grammar ρ ι ε) (form : ListForm) :
    denote rules (.separated p s form) =
      ((denote rules p).separated (denote rules s) form).map .list := rfl

@[simp] theorem denote_withContext (p : Grammar ρ ι ε) (next : Value ι → Cursor ι → Grammar ρ ι ε) :
    denote rules (.withContext p next) =
      (denote rules p).andThen fun a rest => (denote rules (next a rest)).map (.pair a) rest :=
  Parser.map_withContext _ _ _

@[simp] theorem denote_call (r : ρ) :
    denote rules (.call r) = rules r := rfl

theorem denote_both_pair (p q : Grammar ρ ι ε) :
    denote rules (.both .pair p q) =
      ((denote rules p).pair (denote rules q)).map fun r => .pair r.1 r.2 := by
  simp only [Parser.pair, Parser.map_andThen, Parser.map_map]
  rfl

theorem denote_both_right (p q : Grammar ρ ι ε) :
    denote rules (.both .right p q) = (denote rules p).keepRight (denote rules q) :=
  congrArg (Parser.andThen _) (funext fun _ => Parser.map_id _)

theorem denote_both_left (p q : Grammar ρ ι ε) :
    denote rules (.both .left p q) = (denote rules p).keepLeft (denote rules q) := rfl

theorem denote_both_cons (p q : Grammar ρ ι ε) :
    denote rules (.both .cons p q) =
      ((denote rules p).cons ((denote rules q).map Value.elements)).map .list := by
  simp only [Parser.cons, Parser.map_andThen, Parser.map_map]
  rfl

theorem denote_delimited (p opening closing : Grammar ρ ι ε) :
    denote rules (p.delimited opening closing) =
      (denote rules p).delimited (denote rules opening) (denote rules closing) := by
  simp only [delimited, denote_both_left, denote_both_right, Parser.delimited]

theorem denote_maybe_option (p : Grammar ρ ι ε) :
    denote rules (.maybe .option p) = (denote rules p).optional.map .ofOption := by
  funext c
  rcases h : denote rules p c with _ | ⟨_ | _ | _, log⟩ <;>
    simp [Parser.map_apply, Parser.optional, Parser.branch, h, Reply.after, Fallback.found,
      Fallback.missing, Value.ofOption]

theorem denote_maybe_default (p : Grammar ρ ι ε) (v : Value ι) :
    denote rules (.maybe (.default v) p) = (denote rules p).orDefault v := rfl

theorem denote_maybe_boolean (p : Grammar ρ ι ε) :
    denote rules (.maybe .boolean p) = (denote rules p).boolean.map .bool := by
  funext c
  rcases h : denote rules p c with _ | ⟨_ | _ | _, log⟩ <;>
    simp [Parser.map_apply, Parser.boolean, Parser.branch, h, Reply.after, Fallback.found,
      Fallback.missing]

end Equations

/-- The parser of a grammar over a table of rules, for at most `depth` calls
inside each other. -/
def run (table : ρ → Grammar ρ ι ε) (depth : Nat) (g : Grammar ρ ι ε) : Parser ι (Value ι) ε :=
  denote (Parser.nested (fun rules r c => denote rules (table r) c) depth) g

/-- The calls that can be inside each other on these items. -/
def depthOn (rules : Nat) (items : Array (Spanned ι)) : Nat := rules * (items.size + 1)

/-- Parse with a grammar over a table of finitely many rules. -/
def parse {n : Nat} (table : Fin n → Grammar (Fin n) ι ε) (g : Grammar (Fin n) ι ε) :
    Parser ι (Value ι) ε := fun cursor =>
  run table (depthOn n cursor.items) g cursor

/-- A grammar replies wherever it does so with rules that reply less often. -/
theorem denote_mono {rules rules' : ρ → Parser ι (Value ι) ε}
    (h : ∀ r, Parser.Approximates (rules r) (rules' r)) (g : Grammar ρ ι ε) :
    Parser.Approximates (denote rules g) (denote rules' g) := by
  induction g using Grammar.induct with
  | just | oneOf | satisfy | sequence | finish | answer => exact .refl _
  | both joining p q hp hq => exact hp.andThen fun _ => hq.map _
  | orElse p q hp hq => exact hp.orElse hq
  | firstOf ps hps =>
    simp only [denote_firstOf]
    exact Parser.Approximates.firstOf ps hps
  | maybe fallback p hp => exact hp.branch (fun _ => .refl _) (.refl _)
  | require p error hp => exact hp.require error
  | spanned p hp => exact hp.spanned.map _
  | map f p hp => exact hp.map f
  | check p test hp => exact hp.check test
  | repeated p n hp => exact (hp.repeated n).map _
  | separated p s form hp hs => exact (hp.separated form hs).map _
  | withContext p next hp hnext =>
    rw [denote_withContext, denote_withContext]
    exact hp.andThen fun a rest => (hnext a rest).map _ rest
  | call r => exact h r

/-- More depth keeps every reply. -/
theorem run_mono (table : ρ → Grammar ρ ι ε) {m n : Nat} (le : m ≤ n) (g : Grammar ρ ι ε) :
    Parser.Approximates (run table m g) (run table n g) :=
  denote_mono
    (fun r => Parser.nested_mono (fun _ _ h r c x => denote_mono h (table r) c x) le r) g

end SpannedParsing.Grammar
