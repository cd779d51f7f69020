import SpannedParsing.Cursor

/-!
# Items in source order

The spans of an input may have gaps between them, but follow each other. Then offsets
grow with the position of the cursor, and the span between two cursors lies between
their offsets. This is shown for each place that an offset is taken from: the item
ahead, or the item behind the cursor at the end of the items.
-/
namespace SpannedParsing

variable {ι : Type}

/-- No item stops before it starts, and none starts before the one in front of it stops.
There may be gaps between them. -/
structure InOrder (items : Array (Spanned ι)) : Prop where
  item : ∀ (i : Nat) (x : Spanned ι), items[i]? = some x → x.span.start ≤ x.span.stop
  next : ∀ (i : Nat) (x y : Spanned ι), items[i]? = some x → items[i + 1]? = some y →
    x.span.stop ≤ y.span.start

namespace InOrder

variable {items : Array (Spanned ι)} {i j : Nat} {x y : Spanned ι}

theorem stop_le_start (ordered : InOrder items) (first : items[i]? = some x)
    (second : items[j]? = some y) (lt : i < j) : x.span.stop ≤ y.span.start := by
  induction j generalizing y with
  | zero => omega
  | succ j ih =>
    by_cases adjacent : i = j
    · subst adjacent
      exact ordered.next i x y first second
    · have bound := (Array.getElem?_eq_some_iff.mp second).1
      have between : items[j]? = some items[j] := Array.getElem?_eq_getElem (by omega)
      have before := ih between (by omega)
      have inside := ordered.item j _ between
      have after := ordered.next j _ y between second
      omega

theorem start_le_start (ordered : InOrder items) (first : items[i]? = some x)
    (second : items[j]? = some y) (le : i ≤ j) : x.span.start ≤ y.span.start := by
  by_cases same : i = j
  · subst same
    have equal : x = y := Option.some.inj (first.symm.trans second)
    exact Nat.le_of_eq (by rw [equal])
  · have inside := ordered.item i x first
    have before := ordered.stop_le_start first second (by omega)
    omega

end InOrder

namespace Cursor

variable {c d : Cursor ι} {x : Spanned ι}

theorem offset_of_peek (peek : c.peek = some x) : c.offset = x.span.start := by
  simp [offset, peek]

theorem offset_of_end (ended : c.peek = none) (last : c.previous = some x) :
    c.offset = x.span.stop := by
  simp [offset, ended, last]

theorem previous_eq_some (h : c.previous = some x) :
    ∃ i, c.position = i + 1 ∧ c.items[i]? = some x := by
  unfold previous at h
  split at h
  · exact nomatch h
  · next i place => exact ⟨i, place, h⟩

/-- Behind a place further back there is an item. -/
theorem exists_previous (behind : 0 < c.position) : ∃ x, c.previous = some x := by
  have bound := c.position_le
  obtain ⟨i, place⟩ : ∃ i, c.position = i + 1 := ⟨c.position - 1, by omega⟩
  refine ⟨c.items[i], ?_⟩
  simp [previous, place]

theorem exists_peek (inside : c.position < c.items.size) : ∃ x, c.peek = some x :=
  ⟨c.items[c.position], Array.getElem?_eq_getElem inside⟩

/-- What is consumed stops before the offset of the cursor behind it. -/
theorem stop_le_offset (ordered : InOrder c.items) (last : c.previous = some x) :
    x.span.stop ≤ c.offset := by
  obtain ⟨i, place, item⟩ := previous_eq_some last
  rcases peek : c.peek with _ | next
  · exact Nat.le_of_eq (offset_of_end peek last).symm
  · rw [offset_of_peek peek]
    exact ordered.stop_le_start item peek (by omega)

/-- Offsets grow with the position. -/
theorem offset_le (ordered : InOrder c.items) (same : d.items = c.items)
    (le : c.position ≤ d.position) : c.offset ≤ d.offset := by
  by_cases stays : c.position = d.position
  · have equal : c.offset = d.offset := by
      unfold offset peek previous
      rw [same, stays]
    exact Nat.le_of_eq equal
  · have bound := d.position_le
    rw [same] at bound
    obtain ⟨first, peek⟩ := c.exists_peek (by omega)
    obtain ⟨last, previous⟩ := d.exists_previous (by omega)
    obtain ⟨i, place, item⟩ := previous_eq_some previous
    rw [same] at item
    rw [offset_of_peek peek]
    have starts := ordered.start_le_start peek item (by omega)
    have inside := ordered.item i last item
    have stops := stop_le_offset (same ▸ ordered) previous
    omega

/-- The span is in order, and lies between the offsets of the cursors. -/
structure Encloses (c d : Cursor ι) (s : Span) : Prop where
  ordered : s.start ≤ s.stop
  start : c.offset ≤ s.start
  stop : s.stop ≤ d.offset

theorem Encloses.widen {c' d' : Cursor ι} {s : Span} (h : c.Encloses d s)
    (before : c'.offset ≤ c.offset) (after : d.offset ≤ d'.offset) : c'.Encloses d' s :=
  ⟨h.ordered, Nat.le_trans before h.start, Nat.le_trans h.stop after⟩

/-- The span between two cursors lies between their offsets, also where nothing was
consumed. -/
theorem encloses_spanUntil (ordered : InOrder c.items) (same : d.items = c.items)
    (le : c.position ≤ d.position) : c.Encloses d (c.spanUntil d) := by
  have grows := offset_le ordered same le
  have point : c.Encloses d (.point c.offset) := ⟨Nat.le_refl _, Nat.le_refl _, grows⟩
  unfold spanUntil
  by_cases moved : c.position < d.position
  · have bound := d.position_le
    rw [same] at bound
    obtain ⟨first, peek⟩ := c.exists_peek (by omega)
    obtain ⟨last, previous⟩ := d.exists_previous (by omega)
    obtain ⟨i, place, item⟩ := previous_eq_some previous
    rw [same] at item
    have starts := ordered.start_le_start peek item (by omega)
    have inside := ordered.item i last item
    rw [if_pos moved, peek, previous]
    refine ⟨?_, ?_, stop_le_offset (same ▸ ordered) previous⟩
    · show first.span.start ≤ last.span.stop
      omega
    · rw [offset_of_peek peek]
      exact Nat.le_refl _
  · rw [if_neg moved]
    exact point

/-- Errors are reported at spans in order. -/
theorem lastSpan_ordered (ordered : InOrder c.items) : c.lastSpan.start ≤ c.lastSpan.stop := by
  unfold lastSpan
  rcases last : c.previous with _ | x
  · unfold startSpan
    rcases first : c.items[0]? with _ | x
    · exact Nat.le_refl _
    · exact ordered.item 0 x first
  · obtain ⟨i, -, item⟩ := previous_eq_some last
    exact ordered.item i x item

end Cursor

end SpannedParsing
