import SpannedParsing.Span

/-!
# Values of grammars

The value of a match in a grammar: built from items, and from constants and
computed numbers and texts. `same` decides equality of values.
-/
namespace SpannedParsing

inductive Value (ι : Type) where
  | unit
  | bool (b : Bool)
  | item (x : ι)
  | int (n : Nat)
  | str (text : String)
  | list (values : List (Value ι))
  | pair (first second : Value ι)
  | present (value : Value ι)
  | absent
  | spanned (value : Value ι) (span : Span)

namespace Value

variable {ι : Type}

mutual

/-- Whether two values are of the same kind with the same content. -/
def same [DecidableEq ι] : Value ι → Value ι → Bool
  | unit, unit => true
  | bool a, bool b => a == b
  | item x, item y => decide (x = y)
  | int m, int n => m == n
  | str s, str t => s == t
  | list vs, list ws => sameAll vs ws
  | pair a b, pair c d => same a c && same b d
  | present v, present w => same v w
  | absent, absent => true
  | spanned v s, spanned w t => same v w && decide (s = t)
  | _, _ => false

def sameAll [DecidableEq ι] : List (Value ι) → List (Value ι) → Bool
  | [], [] => true
  | v :: vs, w :: ws => same v w && sameAll vs ws
  | _, _ => false

end

mutual

theorem same_iff [DecidableEq ι] : ∀ v w : Value ι, same v w = true ↔ v = w
  | unit, w => by cases w <;> simp [same]
  | bool _, w => by cases w <;> simp [same]
  | item _, w => by cases w <;> simp [same]
  | int _, w => by cases w <;> simp [same]
  | str _, w => by cases w <;> simp [same]
  | list vs, w => by cases w <;> simp [same, sameAll_iff vs]
  | pair a b, w => by cases w <;> simp [same, same_iff a, same_iff b]
  | present v, w => by cases w <;> simp [same, same_iff v]
  | absent, w => by cases w <;> simp [same]
  | spanned v _, w => by cases w <;> simp [same, same_iff v]

theorem sameAll_iff [DecidableEq ι] : ∀ vs ws : List (Value ι), sameAll vs ws = true ↔ vs = ws
  | [], ws => by cases ws <;> simp [sameAll]
  | v :: vs, ws => by cases ws <;> simp [sameAll, same_iff v, sameAll_iff vs]

end

instance [DecidableEq ι] : DecidableEq (Value ι) := fun v w =>
  decidable_of_iff _ (same_iff v w)

/-- The elements of a list; any other value stands for the list of itself. -/
def elements : Value ι → List (Value ι)
  | list values => values
  | value => [value]

def item? : Value ι → Option ι
  | item x => some x
  | _ => none

/-- The items of a list, other elements left out, or the item that a value is. -/
def items : Value ι → List ι
  | list values => values.filterMap item?
  | value => value.item?.toList

def ofItems (xs : List ι) : Value ι := list (xs.map item)

def ofOption : Option (Value ι) → Value ι
  | some value => present value
  | none => absent

def ofSpanned (value : Spanned (Value ι)) : Value ι := spanned value.item value.span

@[simp] theorem items_ofItems (xs : List ι) : (ofItems xs).items = xs := by
  induction xs with
  | nil => rfl
  | cons x xs ih => simpa [ofItems, items, item?] using ih

end Value

end SpannedParsing
