import SpannedParsing.Path
import SpannedParsing.Span
import SpannedParsing.Word

/-!
# Inputs

An input owns the items that are parsed, each with its span, and the path they
were read from, if there is one. It has no more items than a word can count:
`size_le` is part of the type. `numbered` gives consecutive unit spans.
-/
namespace SpannedParsing

/-- Items with their spans, and where they were read from. -/
structure Input (ι : Type) where
  items : Array (Spanned ι)
  source : Option Path
  size_le : items.size ≤ maxOffset

namespace Input

variable {ι υ : Type}

/-- The span of unit width at an offset; at the last offset it is empty. -/
def unitSpan (offset : Nat) : Span := ⟨offset, saturatingAdd offset 1⟩

def ofItems (items : Array (Spanned ι)) (fits : items.size ≤ maxOffset) : Input ι :=
  ⟨items, none, fits⟩

/-- Give every item a unit span, counted up from `base`. -/
def numbered (items : Array ι) (base : Nat) (fits : items.size ≤ maxOffset) : Input ι where
  items := items.mapIdx fun index item => ⟨item, unitSpan (saturatingAdd base index)⟩
  source := none
  size_le := by simpa using fits

def withSource (input : Input ι) (path : Path) : Input ι := { input with source := some path }

def size (input : Input ι) : Nat := input.items.size

def isEmpty (input : Input ι) : Bool := input.size == 0

/-- Change every item; spans and path stay. -/
def map (f : ι → υ) (input : Input ι) : Input υ where
  items := input.items.map (Spanned.map f)
  source := input.source
  size_le := by simpa using input.size_le

@[simp] theorem size_numbered (items : Array ι) (base : Nat) (fits : items.size ≤ maxOffset) :
    (numbered items base fits).size = items.size := by
  simp [numbered, size]

@[simp] theorem source_numbered (items : Array ι) (base : Nat) (fits : items.size ≤ maxOffset) :
    (numbered items base fits).source = none := rfl

theorem getElem?_numbered (items : Array ι) (base index : Nat)
    (fits : items.size ≤ maxOffset) :
    (numbered items base fits).items[index]? =
      items[index]?.map fun item => ⟨item, unitSpan (saturatingAdd base index)⟩ := by
  simp [numbered]

@[simp] theorem size_map (f : ι → υ) (input : Input ι) : (input.map f).size = input.size := by
  simp [map, size]

@[simp] theorem source_map (f : ι → υ) (input : Input ι) :
    (input.map f).source = input.source := rfl

end Input

end SpannedParsing
