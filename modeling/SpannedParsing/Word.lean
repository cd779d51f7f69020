/-!
# Numbers that fit a 64-bit word

Offsets, positions and counts are natural numbers below `wordSize`. Offsets are
added with `saturatingAdd`, which stops at the largest word, and computed
values are reduced with `wrap`, which starts again at zero.
-/
namespace SpannedParsing

/-- The number of values of a 64-bit word, two to the power 64. -/
def wordSize : Nat := 18446744073709551616

def maxOffset : Nat := wordSize - 1

/-- Addition of offsets that stops at `maxOffset`. -/
def saturatingAdd (a b : Nat) : Nat := min (a + b) maxOffset

/-- The word that a number leaves after dropping its higher digits. -/
def wrap (n : Nat) : Nat := n % wordSize

theorem saturatingAdd_le (a b : Nat) : saturatingAdd a b ≤ maxOffset :=
  Nat.min_le_right _ _

theorem saturatingAdd_eq_add {a b : Nat} (h : a + b ≤ maxOffset) :
    saturatingAdd a b = a + b :=
  Nat.min_eq_left h

end SpannedParsing
