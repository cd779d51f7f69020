import SpannedParsing.Proofs.ListSettings

/-!
# Alternatives with a common first part

Alternatives that begin with the same part find what that part finds, followed by
alternatives for what comes behind it. Each alternative runs the common part again, at the
cursor where all of them started, and it replies there as it did before; so what it has
consumed is given back between two alternatives, and an error behind it cuts off the
alternatives that are left.

It does not matter how the alternatives are nested. `Nesting` is a chain of alternatives
with brackets in any places, and every one of them is the list of its leaves.

A common last part cannot be taken out in the same way: the first alternative that matches
is then kept, also where the last part misses behind it.
-/
namespace SpannedParsing

variable {ι α β ε : Type}

/-- Alternatives joined two by two. -/
inductive Nesting (ι α ε : Type) where
  | leaf (p : Parser ι α ε)
  | either (first second : Nesting ι α ε)

namespace Nesting

def parser : Nesting ι α ε → Parser ι α ε
  | leaf p => p
  | either first second => first.parser.orElse second.parser

def leaves : Nesting ι α ε → List (Parser ι α ε)
  | leaf p => [p]
  | either first second => first.leaves ++ second.leaves

/-- The brackets make no difference, neither to the outcome nor to the events. -/
theorem parser_eq_firstOf (t : Nesting ι α ε) : t.parser = Parser.firstOf t.leaves := by
  induction t with
  | leaf p => simp [parser, leaves]
  | either first second ih ih' => rw [parser, leaves, ih, ih', Parser.firstOf_append]

end Nesting

namespace Parser

variable {c rest : Cursor ι} {log : List Event}

theorem outcomeAt_map (f : α → β) (p : Parser ι α ε) (c : Cursor ι) :
    outcomeAt (p.map f) c = (outcomeAt p c).map (Outcome.map f) := by
  unfold outcomeAt
  rw [map_apply, Option.map_map, Option.map_map]
  rfl

/-- The first alternative decides, unless it misses. -/
theorem outcomeAt_orElse (p q : Parser ι α ε) (c : Cursor ι) :
    outcomeAt (p.orElse q) c = match outcomeAt p c with
      | some .noMatch => outcomeAt q c
      | found => found := by
  unfold orElse
  rcases found : p c with _ | ⟨⟨a, rest⟩ | _ | ⟨e, s⟩, log⟩
  · rw [outcomeAt_of_none found, outcomeAt, found]
    rfl
  · rw [outcomeAt_of_matched found, outcomeAt, outcomeAt, found]
    rfl
  · rw [outcomeAt_of_noMatch found, outcomeAt, outcomeAt, found]
    rfl
  · rw [outcomeAt_of_errored found, outcomeAt, found]
    rfl

theorem outcomeAt_pair_of_matched {a : Parser ι α ε} {x : α}
    (found : a c = some ⟨.matched x rest, log⟩) (q : Parser ι β ε) :
    outcomeAt (a.pair q) c = (outcomeAt q rest).map (Outcome.map fun y => (x, y)) := by
  rw [pair, andThen, outcomeAt_of_matched found, outcomeAt_map]

theorem outcomeAt_pair_of_noMatch {a : Parser ι α ε} (found : a c = some ⟨.noMatch, log⟩)
    (q : Parser ι β ε) : outcomeAt (a.pair q) c = some .noMatch := by
  rw [pair, andThen, outcomeAt_of_noMatch found]
  rfl

/-- Behind a match of the common part, the alternatives run as they would without it. -/
theorem outcomeAt_firstOf_of_matched {a : Parser ι α ε} {x : α}
    (found : a c = some ⟨.matched x rest, log⟩) (bs : List (Parser ι β ε)) :
    outcomeAt (firstOf (bs.map a.pair)) c = outcomeAt (a.pair (firstOf bs)) c := by
  induction bs with
  | nil =>
    rw [outcomeAt_pair_of_matched found]
    rfl
  | cons b bs ih =>
    rw [List.map_cons, firstOf_cons, firstOf_cons, outcomeAt_orElse, ih,
      outcomeAt_pair_of_matched found, outcomeAt_pair_of_matched found,
      outcomeAt_pair_of_matched found, outcomeAt_orElse]
    rcases outcomeAt b rest with _ | ⟨y, d⟩ | _ | ⟨e, s⟩ <;> rfl

/-- Where the common part misses, all alternatives do. -/
theorem outcomeAt_firstOf_of_noMatch {a : Parser ι α ε} (found : a c = some ⟨.noMatch, log⟩)
    (bs : List (Parser ι β ε)) : outcomeAt (firstOf (bs.map a.pair)) c = some .noMatch := by
  induction bs with
  | nil => rfl
  | cons b bs ih =>
    rw [List.map_cons, firstOf_cons, outcomeAt_orElse, outcomeAt_pair_of_noMatch found]
    exact ih

/-- There has to be an alternative: without one, the common part would not run at all, and
could not fail. -/
theorem outcomeAt_firstOf_pair (a : Parser ι α ε) (b : Parser ι β ε)
    (bs : List (Parser ι β ε)) (c : Cursor ι) :
    outcomeAt (firstOf ((b :: bs).map a.pair)) c = outcomeAt (a.pair (firstOf (b :: bs))) c := by
  rcases found : a c with _ | ⟨⟨x, rest⟩ | _ | ⟨e, s⟩, log⟩
  · have none (q : Parser ι β ε) : outcomeAt (a.pair q) c = none := outcomeAt_of_none found
    rw [List.map_cons, firstOf_cons, outcomeAt_orElse, none, none]
  · exact outcomeAt_firstOf_of_matched found (b :: bs)
  · rw [outcomeAt_firstOf_of_noMatch found, outcomeAt_pair_of_noMatch found]
  · have failed (q : Parser ι β ε) : outcomeAt (a.pair q) c = some (.errored e s) :=
      outcomeAt_of_errored found
    rw [List.map_cons, firstOf_cons, outcomeAt_orElse, failed, failed]

theorem TotalAmong.firstOf {items : Array (Spanned ι)} {ps : List (Parser ι α ε)}
    (h : ∀ p ∈ ps, p.TotalAmong items) : (Parser.firstOf ps).TotalAmong items := by
  induction ps with
  | nil => exact totalAmong_miss
  | cons p ps ih =>
    have others := ih fun q mem => h q (List.mem_cons_of_mem p mem)
    exact (h p List.mem_cons_self).branch totalAmong_succeed others

/-- A common first part can be taken out of alternatives. Whatever it and the parts behind
it do, the list of alternatives has the outcome of the common part followed by the list of
the other parts; and so have the alternatives joined two by two, from the left, from the
right or in any other way. They reply where all the parts do. -/
theorem common_part_factored (a : Parser ι α ε) (b : Parser ι β ε) (bs : List (Parser ι β ε))
    (c : Cursor ι) :
    outcomeAt (firstOf ((b :: bs).map a.pair)) c = outcomeAt (a.pair (firstOf (b :: bs))) c ∧
    (∀ t : Nesting ι (α × β) ε, t.leaves = (b :: bs).map a.pair →
      outcomeAt t.parser c = outcomeAt (a.pair (firstOf (b :: bs))) c) ∧
    (a.TotalAmong c.items → (∀ q ∈ b :: bs, q.TotalAmong c.items) →
      ∃ o, outcomeAt (a.pair (firstOf (b :: bs))) c = some o) := by
  have factored := outcomeAt_firstOf_pair a b bs c
  refine ⟨factored, ?_, ?_⟩
  · intro t leaves
    rw [t.parser_eq_firstOf, leaves, factored]
  · intro first others
    have whole : (a.pair (firstOf (b :: bs))).TotalAmong c.items :=
      first.andThen fun x => (TotalAmong.firstOf others).andThen fun y => totalAmong_succeed (x, y)
    obtain ⟨r, found⟩ := whole.replies c rfl
    exact ⟨r.outcome, by rw [outcomeAt, found]; rfl⟩

/-- A common last part is different: `a` is kept although no `b` follows it, and the second
alternative is not tried. -/
example :
    let c := Grammar.startOf "aab".toList (by decide)
    let short : Parser Item (List Item) String := sequence [.char 'a']
    let long : Parser Item (List Item) String := sequence [.char 'a', .char 'a']
    let last : Parser Item Item String := just (.char 'b')
    (outcomeAt (firstOf [short.pair last, long.pair last]) c).map Outcome.isMatched = some true ∧
      (outcomeAt ((firstOf [short, long]).pair last) c).map Outcome.isMatched = some false := by
  decide

end Parser

end SpannedParsing
