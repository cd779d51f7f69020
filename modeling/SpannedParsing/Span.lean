/-!
# Spans of source positions

A span is a half-open range of offsets. Nothing forces `start ≤ stop`: a span
that is given from outside may be reversed, and its length is then zero.
-/
namespace SpannedParsing

/-- The offsets from `start` up to, and without, `stop`. -/
structure Span where
  start : Nat
  stop : Nat
  deriving DecidableEq

namespace Span

/-- The empty span at one offset. -/
def point (offset : Nat) : Span := ⟨offset, offset⟩

/-- The span of inputs that have no offset at all. -/
def zero : Span := point 0

/-- The number of offsets inside; zero for a reversed span. -/
def length (s : Span) : Nat := s.stop - s.start

def isEmpty (s : Span) : Bool := s.length == 0

/-- From where the first span starts to where the second one stops. -/
def join (first last : Span) : Span := ⟨first.start, last.stop⟩

/-- Written as `start..stop`. -/
def render (s : Span) : String := toString s.start ++ ".." ++ toString s.stop

@[simp] theorem start_point (n : Nat) : (point n).start = n := rfl

@[simp] theorem stop_point (n : Nat) : (point n).stop = n := rfl

@[simp] theorem start_join (a b : Span) : (a.join b).start = a.start := rfl

@[simp] theorem stop_join (a b : Span) : (a.join b).stop = b.stop := rfl

@[simp] theorem join_self (a : Span) : a.join a = a := rfl

end Span

structure Spanned (α : Type) where
  item : α
  span : Span
  deriving DecidableEq

def Spanned.map {α β : Type} (f : α → β) (s : Spanned α) : Spanned β := ⟨f s.item, s.span⟩

@[simp] theorem Spanned.item_map {α β : Type} (f : α → β) (s : Spanned α) :
    (s.map f).item = f s.item := rfl

@[simp] theorem Spanned.span_map {α β : Type} (f : α → β) (s : Spanned α) :
    (s.map f).span = s.span := rfl

end SpannedParsing
