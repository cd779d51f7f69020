import SpannedParsing.Proofs.SpanSums
import SpannedParsing.Source

/-!
# Captured spans of numbered items

Items that are numbered from a base have spans without gaps between them, also where the
numbers have reached the largest offset and stay there. A cursor among them stands at the
base plus its position, and the span between two cursors runs from the one offset to the
other. At the base zero, offsets are positions: the span of a match in a text is the
stretch of the text that it consumed.

The offset of a cursor comes from the item ahead or, at the end, from the item behind it,
and both give the same number; that is where the stop of the addition is used twice.
-/
namespace SpannedParsing

variable {ι α ε : Type}

/-- The elements of a list inside a span. -/
def Span.slice (s : Span) (xs : List α) : List α := (xs.drop s.start).take s.length

/-- The items from one cursor up to another, without their spans. -/
def Cursor.between (c d : Cursor ι) : List ι := (d.consumed.drop c.position).map Spanned.item

/-- The spans of the items are counted up from a base, in steps of one. -/
def NumberedFrom (base : Nat) (items : Array (Spanned ι)) : Prop :=
  ∀ (i : Nat) (x : Spanned ι), items[i]? = some x →
    x.span = ⟨saturatingAdd base i, saturatingAdd base (i + 1)⟩

/-- Adding one more is the same before and after the largest offset is reached. -/
theorem saturatingAdd_succ (base i : Nat) :
    saturatingAdd (saturatingAdd base i) 1 = saturatingAdd base (i + 1) := by
  simp only [saturatingAdd]
  omega

namespace NumberedFrom

variable {base : Nat} {items : Array (Spanned ι)} {c d : Cursor ι}

theorem ofNumbered (items : Array ι) (base : Nat) (fits : items.size ≤ maxOffset) :
    NumberedFrom base (Input.numbered items base fits).items := by
  intro i x found
  rw [Input.getElem?_numbered, Option.map_eq_some_iff] at found
  obtain ⟨item, -, rfl⟩ := found
  show Input.unitSpan (saturatingAdd base i) = _
  rw [Input.unitSpan, saturatingAdd_succ]

theorem gapless (numbered : NumberedFrom base items) : Gapless items := by
  intro i x y first second
  rw [numbered i x first, numbered (i + 1) y second]

/-- The item in front of a cursor stops at the base plus the position. -/
theorem stop_previous (numbered : NumberedFrom base c.items) {last : Spanned ι}
    (previous : c.previous = some last) : last.span.stop = saturatingAdd base c.position := by
  obtain ⟨i, place, item⟩ := Cursor.previous_eq_some previous
  rw [numbered i last item, place]

/-- A cursor stands at the base plus its position, also at the end of the items. -/
theorem offset (numbered : NumberedFrom base c.items) (nonempty : 0 < c.items.size) :
    c.offset = saturatingAdd base c.position := by
  rcases peek : c.peek with _ | next
  · have ended : c.items.size ≤ c.position := Array.getElem?_eq_none_iff.mp peek
    obtain ⟨last, previous⟩ := Cursor.exists_previous (c := c) (by omega)
    rw [Cursor.offset_of_end peek previous, numbered.stop_previous previous]
  · rw [Cursor.offset_of_peek peek, numbered c.position next peek]

theorem spanUntil_of_le (numbered : NumberedFrom base c.items) (nonempty : 0 < c.items.size)
    (same : d.items = c.items) (le : c.position ≤ d.position) :
    c.spanUntil d = ⟨saturatingAdd base c.position, saturatingAdd base d.position⟩ := by
  have start : (c.spanUntil d).start = saturatingAdd base c.position := by
    rw [Cursor.start_spanUntil, numbered.offset nonempty]
  have stop : (c.spanUntil d).stop = saturatingAdd base d.position := by
    by_cases moved : c.position < d.position
    · obtain ⟨last, previous⟩ := Cursor.exists_previous (c := d) (by omega)
      have numbered' : NumberedFrom base d.items := same ▸ numbered
      rw [Cursor.stop_spanUntil_of_lt same moved previous, numbered'.stop_previous previous]
    · have stayed : d.position = c.position := by omega
      rw [Cursor.stop_spanUntil_of_le (by omega), numbered.offset nonempty, stayed]
  exact congrArg₂ Span.mk start stop

theorem spanUntil_of_lt (numbered : NumberedFrom base c.items) (nonempty : 0 < c.items.size)
    (lt : d.position < c.position) :
    c.spanUntil d = .point (saturatingAdd base c.position) := by
  rw [Cursor.spanUntil, if_neg (by omega), numbered.offset nonempty]

/-- Where the numbers do not reach the largest offset, the span is as long as the stretch. -/
theorem length_spanUntil (numbered : NumberedFrom base c.items) (nonempty : 0 < c.items.size)
    (same : d.items = c.items) (fits : base + d.position ≤ maxOffset) :
    (c.spanUntil d).length = d.position - c.position := by
  by_cases le : c.position ≤ d.position
  · rw [numbered.spanUntil_of_le nonempty same le, Span.length, saturatingAdd_eq_add fits,
      saturatingAdd_eq_add (by omega)]
    show base + d.position - (base + c.position) = _
    omega
  · rw [numbered.spanUntil_of_lt nonempty (by omega), Span.length]
    show saturatingAdd base c.position - saturatingAdd base c.position = _
    omega

end NumberedFrom

namespace Cursor

variable {c d : Cursor ι}

theorem length_between (c d : Cursor ι) : (c.between d).length = d.position - c.position := by
  have bound := d.position_le
  rw [between, consumed, List.length_map, List.length_drop, List.length_take,
    Array.length_toList]
  omega

/-- Without items there is only one place, at the offset zero. -/
theorem spanUntil_of_empty (empty : c.items.size = 0) (same : d.items = c.items) :
    c.spanUntil d = .zero := by
  have bound := c.position_le
  have bound' := d.position_le
  have place : c.position = 0 := by omega
  have peek : c.peek = none := Array.getElem?_eq_none (by omega)
  have previous : c.previous = none := by simp [Cursor.previous, place]
  rw [same] at bound'
  rw [spanUntil, if_neg (by omega), offset, peek, previous]
  rfl

end Cursor

theorem Input.map_item_numbered (items : Array ι) (base : Nat)
    (fits : items.size ≤ maxOffset) :
    (numbered items base fits).items.toList.map Spanned.item = items.toList := by
  apply List.ext_getElem?
  intro i
  rw [List.getElem?_map, Array.getElem?_toList, getElem?_numbered, Option.map_map,
    Array.getElem?_toList]
  exact congrFun Option.map_id items[i]?

/-- What lies between two positions of a numbered input is the slice between them. -/
theorem Cursor.slice_eq_between {items : Array ι} {base : Nat} {fits : items.size ≤ maxOffset}
    {c d : Cursor ι} (there : d.items = (Input.numbered items base fits).items) :
    Span.slice ⟨c.position, d.position⟩ items.toList = c.between d := by
  rw [between, consumed, there, List.map_drop, List.map_take, Input.map_item_numbered,
    List.drop_take]
  rfl

/-- From the base zero, offsets are positions. -/
theorem NumberedFrom.spanUntil_of_zero {c d : Cursor ι} (numbered : NumberedFrom 0 c.items)
    (same : d.items = c.items) (le : c.position ≤ d.position) :
    c.spanUntil d = ⟨c.position, d.position⟩ := by
  have bound := c.position_le
  have bound' := d.position_le
  have fits := c.size_le
  rw [same] at bound'
  by_cases nonempty : 0 < c.items.size
  · rw [numbered.spanUntil_of_le nonempty same le, saturatingAdd_eq_add (by omega),
      saturatingAdd_eq_add (by omega), Nat.zero_add, Nat.zero_add]
  · have start : c.position = 0 := by omega
    have stop : d.position = 0 := by omega
    rw [Cursor.spanUntil_of_empty (by omega) same, start, stop]
    rfl

namespace Parser

/-- Captured spans of numbered items in closed form: from the one position to the other, both
counted from the base, or the empty span at the start of a match that goes back. There are no
gaps, also where the numbers stay at the largest offset. Below it, the span is as long as what
was consumed; at the base zero it captures the positions. Without items, it is at zero. -/
theorem captured_of_numbered (items : Array ι) (base : Nat) (fits : items.size ≤ maxOffset) :
    Gapless (Input.numbered items base fits).items ∧
    (∀ (p : Parser ι α ε) (c d : Cursor ι) (a : α) (log : List Event),
      c.items = (Input.numbered items base fits).items →
      d.items = (Input.numbered items base fits).items → p c = some ⟨.matched a d, log⟩ →
        ∃ s, p.spanned c = some ⟨.matched ⟨a, s⟩ d, log⟩ ∧
          (0 < items.size →
            (c.position ≤ d.position →
              s = ⟨saturatingAdd base c.position, saturatingAdd base d.position⟩) ∧
            (d.position < c.position → s = .point (saturatingAdd base c.position)) ∧
            (base = 0 → c.position ≤ d.position →
              s = ⟨c.position, d.position⟩ ∧ s.slice items.toList = c.between d) ∧
            (base + d.position ≤ maxOffset → s.length = (c.between d).length)) ∧
          (items.size = 0 → s = .zero)) ∧
    ∀ (source : Source) (p : Parser Char α ε) (c d : Cursor Char) (a : α) (log : List Event),
      c.items = source.input.items → d.items = source.input.items →
      c.position ≤ d.position → p c = some ⟨.matched a d, log⟩ →
        p.spanned c = some ⟨.matched ⟨a, ⟨c.position, d.position⟩⟩ d, log⟩ ∧
          Span.slice ⟨c.position, d.position⟩ source.chars = c.between d := by
  have numbered := NumberedFrom.ofNumbered items base fits
  have size : (Input.numbered items base fits).items.size = items.size :=
    Input.size_numbered items base fits
  refine ⟨numbered.gapless, ?_, ?_⟩
  · intro p c d a log here there found
    have same := there.trans here.symm
    rw [← here] at numbered size
    refine ⟨c.spanUntil d, spanned_of_matched found, fun nonempty => ⟨?_, ?_, ?_, ?_⟩, ?_⟩
    · exact numbered.spanUntil_of_le (by omega) same
    · exact numbered.spanUntil_of_lt (by omega)
    · rintro rfl le
      rw [numbered.spanUntil_of_zero same le]
      exact ⟨rfl, Cursor.slice_eq_between there⟩
    · intro below
      rw [numbered.length_spanUntil (by omega) same below, Cursor.length_between]
    · intro empty
      exact Cursor.spanUntil_of_empty (by omega) same
  · intro source p c d a log here there le found
    have ofText : NumberedFrom 0 c.items :=
      here ▸ NumberedFrom.ofNumbered source.chars.toArray 0 source.size_chars_le
    have text : d.items = (Input.numbered source.chars.toArray 0 source.size_chars_le).items :=
      there
    have captured := spanned_of_matched found
    rw [ofText.spanUntil_of_zero (there.trans here.symm) le] at captured
    exact ⟨captured, Cursor.slice_eq_between text⟩

/-- Behind the first of three letters, of which the last one is at the largest offset. -/
def nearMaximum : Cursor Char :=
  (Input.numbered #['a', 'b', 'c'] (maxOffset - 2) (by decide)).start.next

/-- Two letters are captured up to the largest offset, at which the second one starts. -/
theorem captured_of_numbered_saturated :
    ∃ s, (sequence ['b', 'c'] : Parser Char (List Char) String).spanned nearMaximum =
        some ⟨.matched ⟨['b', 'c'], s⟩ (nearMaximum.advance 2), []⟩ ∧
      s = ⟨maxOffset - 1, maxOffset⟩ := by
  have found : (sequence ['b', 'c'] : Parser Char (List Char) String) nearMaximum =
      some ⟨.matched ['b', 'c'] (nearMaximum.advance 2), []⟩ := by cbv
  obtain ⟨s, captured, closed, -⟩ :=
    (captured_of_numbered #['a', 'b', 'c'] (maxOffset - 2) (by decide)).2.1 _ nearMaximum
      (nearMaximum.advance 2) _ _ rfl rfl found
  exact ⟨s, captured, (closed (by decide)).1 (by decide)⟩

end Parser

end SpannedParsing
