import SpannedParsing.Proofs.Invariant

/-!
# Where a match leaves the cursor

A match never leaves the items and the path of the cursor where it started, and
never goes behind that cursor. This holds for a whole grammar as soon as the
outcomes that it computes on its own and its contexts keep to it: every other way to
go on is an advance, or the cursor that was given, also where a part of the input
had already been consumed.
-/
namespace SpannedParsing

variable {ρ ι ε : Type}

/-- The second cursor is among the same items, from the same path, and not
behind the first one. -/
structure Cursor.Follows (c d : Cursor ι) : Prop where
  items : d.items = c.items
  source : d.source = c.source
  position : c.position ≤ d.position

namespace Cursor.Follows

theorem refl (c : Cursor ι) : c.Follows c := ⟨rfl, rfl, Nat.le_refl _⟩

theorem trans {a b c : Cursor ι} (h : a.Follows b) (k : b.Follows c) : a.Follows c :=
  ⟨k.items.trans h.items, k.source.trans h.source, Nat.le_trans h.position k.position⟩

theorem advance (c : Cursor ι) (n : Nat) : c.Follows (c.advance n) :=
  ⟨rfl, rfl, position_le_advance c n⟩

end Cursor.Follows

/-- A match leaves the cursor at a place that follows the start. -/
def endsAhead : ReplyProperty ι ε := fun c o _ => ∀ d, o = .matched () d → c.Follows d

theorem endsAhead_composes : (endsAhead : ReplyProperty ι ε).Composes where
  stay c d h := by
    obtain ⟨-, rfl⟩ := Outcome.matched.inj h
    exact .refl c
  advance c n d h := by
    obtain ⟨-, rfl⟩ := Outcome.matched.inj h
    exact .advance c n
  miss c d h := nomatch h
  short c n d h := nomatch h
  stall c d h := by
    obtain ⟨-, rfl⟩ := Outcome.matched.inj h
    exact .refl c
  goOn first second e h := (first _ rfl).trans (second e h)
  retry _ second := second

theorem endsAhead_unmet (e : ε) :
    Parser.Ensures (Parser.unmet e : Parser ι (Value ι) ε) endsAhead := by
  intro c r found d matched
  obtain rfl := Option.some.inj found
  exact nomatch matched

namespace Grammar

variable [DecidableEq ι]

/-- Every match of a grammar ends among the items where it started, with their
path, between its start and the end of the items. -/
theorem matched_between {table : ρ → Grammar ρ ι ε} {g : Grammar ρ ι ε}
    (answers : ∀ f, Includes table g (.answer f) → (Parser.ofOutcome f).Ensures endsAhead)
    (contexts : ContextsKeep (fun p => p.Ensures endsAhead) table (Includes table g))
    {depth : Nat} {c d : Cursor ι} {value : Value ι} {log : List Event}
    (found : run table depth g c = some ⟨.matched value d, log⟩) :
    d.items = c.items ∧ d.source = c.source ∧
      c.position ≤ d.position ∧ d.position ≤ c.items.size := by
  have own : OwnReplies endsAhead table (Includes table g) :=
    { parts := fun _ _ included inside => included.part inside
      unmet := fun _ e _ => endsAhead_unmet e
      answer := answers
      context := contexts }
  have ahead : c.Follows d :=
    ensures_run endsAhead_composes own (.refl table g) depth c _ found d rfl
  have bound := d.position_le
  rw [ahead.items] at bound
  exact ⟨ahead.items, ahead.source, ahead.position, bound⟩

/-- Two blocks and the comma in front of them are consumed. -/
theorem matched_between_blocks : ∃ value d log,
    run (fun _ => block) 3 blocks closedBlocks = some ⟨.matched value d, log⟩ ∧
      d.items = closedBlocks.items ∧ d.source = closedBlocks.source ∧
      closedBlocks.position ≤ d.position ∧ d.position ≤ closedBlocks.items.size := by
  have succeeded : ((run (fun _ => block) 3 blocks closedBlocks).any fun r =>
      r.outcome.isMatched) = true := by decide +kernel
  obtain ⟨⟨⟨value, d⟩ | _ | _, log⟩, found, matched⟩ := (Option.any_eq_true _ _).mp succeeded
  · refine ⟨value, d, log, found, matched_between ?_ ?_ found⟩
    · intro f included
      exact (onlyCounts_of_reaches included.reaches).answer (fun _ => block)
        (fun p => p.Ensures endsAhead) (ensures_take endsAhead_composes 0)
    · exact OnlyCounts.contexts (fun _ included => onlyCounts_of_reaches included.reaches)
        (ensures_take endsAhead_composes)
  · exact nomatch matched
  · exact nomatch matched

end Grammar

end SpannedParsing
