import SpannedParsing.Input

/-!
# Cursors

A cursor is a place between two items of an input. Parsers take one and give
one back. It never leaves its items, of which a word can count all: both facts
are part of the type.

`remaining` and `consumed` are the list views of a cursor: together they are
all the items, `peek` is the head of the first and `previous` the end of the
second. The executable operations index the array and build neither list.
-/
namespace SpannedParsing

/-- A place among the items of an input, with the input's path. -/
@[ext]
structure Cursor (ι : Type) where
  items : Array (Spanned ι)
  position : Nat
  source : Option Path
  position_le : position ≤ items.size
  size_le : items.size ≤ maxOffset

def Input.start {ι : Type} (input : Input ι) : Cursor ι :=
  ⟨input.items, 0, input.source, Nat.zero_le _, input.size_le⟩

namespace Cursor

variable {ι υ : Type}

/-- The number of items not yet consumed. -/
def left (c : Cursor ι) : Nat := c.items.size - c.position

/-- The number of places behind the cursor that a word can still name. It goes down
whenever the position goes up, also from one input to another. -/
def room (c : Cursor ι) : Nat := maxOffset - c.position

def remaining (c : Cursor ι) : List (Spanned ι) := c.items.toList.drop c.position

def consumed (c : Cursor ι) : List (Spanned ι) := c.items.toList.take c.position

/-- Whether every item is consumed. -/
def atEnd (c : Cursor ι) : Bool := decide (c.items.size ≤ c.position)

/-- The next item. -/
def peek (c : Cursor ι) : Option (Spanned ι) := c.items[c.position]?

/-- The item consumed last. -/
def previous (c : Cursor ι) : Option (Spanned ι) :=
  match c.position with
  | 0 => none
  | index + 1 => c.items[index]?

/-- Go on by a number of items, at most to the end. -/
def advance (c : Cursor ι) (count : Nat) : Cursor ι :=
  { c with
    position := min (saturatingAdd c.position count) c.items.size
    position_le := Nat.min_le_right _ _ }

def next (c : Cursor ι) : Cursor ι := c.advance 1

/-- Go to a position, forwards or backwards, at most to the end. -/
def moveTo (c : Cursor ι) (position : Nat) : Cursor ι :=
  { c with
    position := min position c.items.size
    position_le := Nat.min_le_right _ _ }

/-- The next items and the cursor after them, if there are that many. -/
def split? (c : Cursor ι) (count : Nat) : Option (List ι × Cursor ι) :=
  if count ≤ c.left then
    let stretch := c.items.extract c.position (c.position + count)
    some (stretch.toList.map Spanned.item, c.advance count)
  else none

def withSource (c : Cursor ι) (path : Path) : Cursor ι := { c with source := some path }

/-- The span of the last item. -/
def endSpan? (c : Cursor ι) : Option Span := c.items.back?.map Spanned.span

def startSpan (c : Cursor ι) : Span :=
  match c.items[0]? with
  | some first => first.span
  | none => .zero

/-- The span where an error at this cursor is reported: that of the item
consumed last or, if there is none, of the first item. -/
def lastSpan (c : Cursor ι) : Span :=
  match c.previous with
  | some last => last.span
  | none => c.startSpan

/-- The source offset of the cursor: where the next item starts or, at the
end, where the previous one stops. -/
def offset (c : Cursor ι) : Nat :=
  match c.peek, c.previous with
  | some next, _ => next.span.start
  | none, some last => last.span.stop
  | none, none => 0

/-- The span of the items between two cursors; an empty span if there are none. -/
def spanUntil (c later : Cursor ι) : Span :=
  if c.position < later.position then
    match c.peek, later.previous with
    | some first, some last => first.span.join last.span
    | _, _ => .point c.offset
  else .point c.offset

/-- Whether the next items are these, one by one. -/
def agrees [DecidableEq ι] : List ι → Cursor ι → Bool
  | [], _ => true
  | x :: xs, c =>
    match c.peek with
    | some found => decide (x = found.item) && agrees xs c.next
    | none => false

/-- Whether the next items are these, of which there is at least one. -/
def startsWith [DecidableEq ι] (c : Cursor ι) (pattern : List ι) : Bool :=
  !pattern.isEmpty && c.agrees pattern

/-- The same place among the same items with the same spans, from the same path. -/
def same [DecidableEq ι] (a b : Cursor ι) : Bool :=
  a.position == b.position && Path.sameTag a.source b.source && a.items == b.items

@[simp] theorem items_advance (c : Cursor ι) (n : Nat) : (c.advance n).items = c.items := rfl

@[simp] theorem source_advance (c : Cursor ι) (n : Nat) : (c.advance n).source = c.source := rfl

/-- The addition never has to stop: the end of the items comes first. -/
@[simp] theorem position_advance (c : Cursor ι) (n : Nat) :
    (c.advance n).position = min (c.position + n) c.items.size := by
  have := c.size_le
  simp only [advance, saturatingAdd]
  omega

theorem room_lt_iff {c d : Cursor ι} : d.room < c.room ↔ c.position < d.position := by
  have bound := d.position_le
  have fits := d.size_le
  unfold room
  omega

/-- A cursor may be shown to have a property while all cursors further on are assumed to
have it, as positions do not grow for ever. -/
@[elab_as_elim]
theorem inductAhead {motive : Cursor ι → Prop} (c : Cursor ι)
    (ind : ∀ c, (∀ d, c.position < d.position → motive d) → motive c) : motive c := by
  induction room : c.room using Nat.strongRecOn generalizing c with
  | ind k ih => exact ind c fun d ahead => ih d.room (room ▸ room_lt_iff.mpr ahead) d rfl

theorem position_le_advance (c : Cursor ι) (n : Nat) : c.position ≤ (c.advance n).position := by
  have bound := c.position_le
  rw [position_advance]
  omega

@[simp] theorem items_next (c : Cursor ι) : c.next.items = c.items := rfl

@[simp] theorem source_next (c : Cursor ι) : c.next.source = c.source := rfl

@[simp] theorem position_next (c : Cursor ι) :
    c.next.position = min (c.position + 1) c.items.size := by simp [next]

@[simp] theorem items_moveTo (c : Cursor ι) (n : Nat) : (c.moveTo n).items = c.items := rfl

@[simp] theorem source_moveTo (c : Cursor ι) (n : Nat) : (c.moveTo n).source = c.source := rfl

@[simp] theorem position_moveTo (c : Cursor ι) (n : Nat) :
    (c.moveTo n).position = min n c.items.size := rfl

@[simp] theorem items_withSource (c : Cursor ι) (p : Path) : (c.withSource p).items = c.items := rfl

@[simp] theorem position_withSource (c : Cursor ι) (p : Path) :
    (c.withSource p).position = c.position := rfl

@[simp] theorem length_remaining (c : Cursor ι) : c.remaining.length = c.left := by
  simp [remaining, left]

@[simp] theorem consumed_append_remaining (c : Cursor ι) :
    c.consumed ++ c.remaining = c.items.toList :=
  List.take_append_drop _ _

theorem advance_zero (c : Cursor ι) : c.advance 0 = c := by
  ext1
  · rfl
  · rw [position_advance]
    exact Nat.min_eq_left c.position_le
  · rfl

/-- Two moves are one: neither of them stops before the end of the items. -/
theorem advance_advance (c : Cursor ι) (m n : Nat) :
    (c.advance m).advance n = c.advance (m + n) := by
  ext1
  · rfl
  · simp only [position_advance, items_advance]
    omega
  · rfl

/-- A move takes items from the beginning of those that remain. -/
theorem remaining_advance (c : Cursor ι) (n : Nat) :
    (c.advance n).remaining = c.remaining.drop n := by
  rw [remaining, remaining, items_advance, position_advance, List.drop_drop,
    ← Array.length_toList, ← List.drop_eq_drop_min]

/-- What a move takes comes behind the items consumed before. -/
theorem consumed_advance (c : Cursor ι) (n : Nat) :
    (c.advance n).consumed = c.consumed ++ c.remaining.take n := by
  rw [consumed, consumed, remaining, items_advance, position_advance, ← List.take_add,
    ← Array.length_toList, ← List.take_eq_take_min]

theorem peek_eq_head? (c : Cursor ι) : c.peek = c.remaining.head? := by
  simp [peek, remaining, List.head?_drop]

theorem atEnd_iff_left (c : Cursor ι) : c.atEnd = true ↔ c.left = 0 := by
  simp [atEnd, left, Nat.sub_eq_zero_iff_le]

theorem atEnd_iff_peek (c : Cursor ι) : c.atEnd = true ↔ c.peek = none := by
  simp [atEnd, peek]

theorem position_lt_next {c : Cursor ι} {x : Spanned ι} (h : c.peek = some x) :
    c.position < c.next.position := by
  obtain ⟨bound, -⟩ := Array.getElem?_eq_some_iff.1 h
  rw [position_next]
  omega

theorem remaining_eq_cons {c : Cursor ι} {x : Spanned ι} (h : c.peek = some x) :
    c.remaining = x :: c.next.remaining := by
  obtain ⟨bound, rfl⟩ := Array.getElem?_eq_some_iff.1 h
  have step : min (c.position + 1) c.items.size = c.position + 1 := by omega
  simp only [remaining, items_next, position_next, step]
  rw [List.drop_eq_getElem_cons (by simpa using bound)]
  simp

theorem remaining_eq_nil {c : Cursor ι} (h : c.peek = none) : c.remaining = [] := by
  rw [peek_eq_head?] at h
  exact List.head?_eq_none_iff.1 h

/-- The item consumed last is the end of those consumed. -/
theorem previous_eq_getLast? (c : Cursor ι) : c.previous = c.consumed.getLast? := by
  have bound := c.position_le
  rcases h : c.position with _ | index
  · simp [previous, consumed, h]
  · simp only [previous, consumed, h, List.getLast?_eq_getElem?, List.length_take,
      Array.length_toList]
    have last : min (index + 1) c.items.size - 1 = index := by omega
    simp [last]

/-- Agreeing with items is having them at the beginning of what remains. -/
theorem agrees_iff [DecidableEq ι] (xs : List ι) (c : Cursor ι) :
    c.agrees xs = true ↔ xs <+: c.remaining.map Spanned.item := by
  induction xs generalizing c with
  | nil => simp [agrees]
  | cons x xs ih =>
    rcases h : c.peek with _ | found
    · simp [agrees, h, remaining_eq_nil h]
    · rw [remaining_eq_cons h, List.map_cons, List.cons_prefix_cons, ← ih]
      simp [agrees, h]

/-- The items split off are the beginning of what remains. -/
theorem split?_eq (c : Cursor ι) (n : Nat) :
    c.split? n =
      if n ≤ c.left then some ((c.remaining.take n).map Spanned.item, c.advance n) else none := by
  simp [split?, remaining, List.extract_eq_take_drop]

@[simp] theorem startsWith_nil [DecidableEq ι] (c : Cursor ι) : c.startsWith [] = false := rfl

theorem startsWith_cons [DecidableEq ι] (c : Cursor ι) (x : ι) (xs : List ι) :
    c.startsWith (x :: xs) = c.agrees (x :: xs) := rfl

@[simp] theorem same_self [DecidableEq ι] (c : Cursor ι) : c.same c = true := by simp [same]

end Cursor

end SpannedParsing
