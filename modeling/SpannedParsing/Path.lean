/-!
# Paths that name where an input came from

A path is kept as it was written. Two paths are the same place when they have
the same components: repeated and final slashes do not count, nor does a `.`
after the first component; a leading slash, a leading `.` and every `..` do.
-/
namespace SpannedParsing

structure Path where
  text : String
  deriving DecidableEq

namespace Path

/-- The components of a path: the root of an absolute path, then the names. -/
inductive Component where
  | root
  | current
  | parent
  | name (text : List Char)
  deriving DecidableEq

/-- The stretches between slashes, empty ones included. -/
def segments (text : List Char) : List (List Char) :=
  text.splitOn '/'

/-- A segment after the first place; an empty one and `.` name nothing. -/
def component? : List Char → Option Component
  | [] => none
  | ['.'] => none
  | ['.', '.'] => some .parent
  | text => some (.name text)

/-- The component at the beginning: a slash is the root and `.` is kept. -/
def leading : List Char → List Component
  | '/' :: _ => [.root]
  | ['.'] => [.current]
  | '.' :: '/' :: _ => [.current]
  | _ => []

/-- The components of a path, in order. -/
def components (p : Path) : List Component :=
  leading p.text.toList ++ (segments p.text.toList).filterMap component?

/-- Whether two paths name the same place, component by component. -/
def same (p q : Path) : Bool := p.components == q.components

@[simp] theorem same_self (p : Path) : p.same p = true := by simp [same]

theorem same_iff (p q : Path) : p.same q = true ↔ p.components = q.components := by
  simp [same]

/-- Whether two optional paths are both missing or name the same place. -/
def sameTag : Option Path → Option Path → Bool
  | none, none => true
  | some p, some q => p.same q
  | _, _ => false

@[simp] theorem sameTag_self (p : Option Path) : sameTag p p = true := by
  cases p <;> simp [sameTag]

end Path

end SpannedParsing
