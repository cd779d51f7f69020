import SpannedParsing.Cursor

/-!
# Runs of a cursor

A cursor goes on by steps of any size, and a path may be given to it on the way. Each
addition stops at the largest word, and each move at the end of the items. All the same, a
whole run is as exact as the sum of its steps as natural numbers, stopped once at the end:
a word counts all items, so an addition that has to stop has left them behind anyway. A run
is therefore a single move (`walk_eq`), and neither the order of the steps nor taking some
of them together makes a difference to its place.

What the steps take, one after the other (`passed`), and what remains are all the items.
-/
namespace SpannedParsing

variable {ι : Type}

/-- The elements from an index on. From behind the end there is no such slice, not even an
empty one. -/
def suffix? {α : Type} (items : Array α) (start : Nat) : Option (List α) :=
  if start ≤ items.size then some (items.toList.drop start) else none

namespace Cursor

/-- What leads from one cursor to another one on the same items. -/
inductive Step where
  | next
  | advance (count : Nat)
  | withSource (path : Path)
  deriving DecidableEq

namespace Step

/-- The number of items that a step goes over, if there are that many. -/
def distance : Step → Nat
  | next => 1
  | advance count => count
  | withSource _ => 0

def path? : Step → Option Path
  | withSource path => some path
  | _ => none

end Step

/-- The sum of the steps, which no word bounds. -/
def distance : List Step → Nat
  | [] => 0
  | s :: steps => s.distance + distance steps

/-- The sum of the steps in words, each addition stopped at the largest one. -/
def wordDistance (steps : List Step) : Nat :=
  steps.foldl (fun total s => saturatingAdd total s.distance) 0

def lastPath? (steps : List Step) : Option Path := (steps.filterMap Step.path?).getLast?

/-- The cursor after a step. -/
def step (c : Cursor ι) : Step → Cursor ι
  | .next => c.next
  | .advance count => c.advance count
  | .withSource path => c.withSource path

/-- The cursor after several steps, one after the other. -/
def walk (c : Cursor ι) (steps : List Step) : Cursor ι := steps.foldl step c

/-- The items that steps take from those that remain, one step after the other. -/
def passed : Cursor ι → List Step → List (Spanned ι)
  | _, [] => []
  | c, s :: steps => c.remaining.take s.distance ++ (c.step s).passed steps

def tagged (c : Cursor ι) (path : Option Path) : Cursor ι := { c with source := path.or c.source }

theorem tagged_tagged (c : Cursor ι) (first second : Option Path) :
    (c.tagged first).tagged second = c.tagged (second.or first) := by
  rw [tagged, tagged, tagged, Option.or_assoc]

theorem advance_tagged (c : Cursor ι) (path : Option Path) (n : Nat) :
    (c.tagged path).advance n = (c.advance n).tagged path := rfl

@[simp] theorem distance_cons (s : Step) (steps : List Step) :
    distance (s :: steps) = s.distance + distance steps := rfl

@[simp] theorem distance_append (steps more : List Step) :
    distance (steps ++ more) = distance steps + distance more := by
  induction steps with
  | nil => exact (Nat.zero_add _).symm
  | cons s steps ih => rw [List.cons_append, distance_cons, distance_cons, ih, Nat.add_assoc]

theorem distance_perm {steps other : List Step} (same : steps.Perm other) :
    distance steps = distance other := by
  induction same with
  | nil => rfl
  | cons s _ ih => rw [distance_cons, distance_cons, ih]
  | swap s t steps => exact Nat.add_left_comm _ _ _
  | trans _ _ first second => exact first.trans second

/-- Stopping at the largest word on the way is stopping there once, after the last step. -/
theorem foldl_saturatingAdd (steps : List Step) {total : Nat} (fits : total ≤ maxOffset) :
    steps.foldl (fun total s => saturatingAdd total s.distance) total =
      min (total + distance steps) maxOffset := by
  induction steps generalizing total with
  | nil => exact (Nat.min_eq_left fits).symm
  | cons s steps ih =>
    rw [List.foldl_cons, ih (saturatingAdd_le total s.distance), saturatingAdd, distance_cons]
    omega

theorem wordDistance_eq (steps : List Step) :
    wordDistance steps = min (distance steps) maxOffset := by
  rw [wordDistance, foldl_saturatingAdd _ (Nat.zero_le _), Nat.zero_add]

theorem lastPath?_cons (s : Step) (steps : List Step) :
    lastPath? (s :: steps) = (lastPath? steps).or s.path? := by
  cases s with
  | next | advance => simp [lastPath?, Step.path?]
  | withSource path => simp [lastPath?, Step.path?, List.getLast?_cons]

/-- Each step is a move, perhaps of no length, and it may give a path. -/
theorem step_eq (c : Cursor ι) (s : Step) :
    c.step s = (c.advance s.distance).tagged s.path? := by
  cases s with
  | next | advance => rfl
  | withSource path =>
    rw [Step.distance, advance_zero]
    rfl

/-- A whole run is one move, with the path that was given last. -/
theorem walk_eq (c : Cursor ι) (steps : List Step) :
    c.walk steps = (c.advance (distance steps)).tagged (lastPath? steps) := by
  induction steps generalizing c with
  | nil => exact (advance_zero c).symm
  | cons s steps ih =>
    calc c.walk (s :: steps) = (c.step s).walk steps := rfl
      _ = ((c.step s).advance (distance steps)).tagged (lastPath? steps) := ih _
      _ = (((c.advance s.distance).advance (distance steps)).tagged s.path?).tagged
            (lastPath? steps) := by rw [step_eq, advance_tagged]
      _ = _ := by rw [tagged_tagged, advance_advance, distance_cons, lastPath?_cons]

/-- A step puts what it takes behind what was consumed before. -/
theorem consumed_step (c : Cursor ι) (s : Step) :
    (c.step s).consumed = c.consumed ++ c.remaining.take s.distance := by
  rw [step_eq, ← consumed_advance]
  rfl

/-- So the items consumed are those that the steps have taken. -/
theorem consumed_walk (c : Cursor ι) (steps : List Step) :
    (c.walk steps).consumed = c.consumed ++ c.passed steps := by
  induction steps generalizing c with
  | nil => exact (List.append_nil _).symm
  | cons s steps ih =>
    calc (c.walk (s :: steps)).consumed = ((c.step s).walk steps).consumed := rfl
      _ = (c.step s).consumed ++ (c.step s).passed steps := ih _
      _ = _ := by rw [consumed_step, List.append_assoc, passed]

theorem position_walk (c : Cursor ι) (steps : List Step) :
    (c.walk steps).position = min (c.position + distance steps) c.items.size := by
  rw [walk_eq, ← position_advance]
  rfl

/-- The sum of the steps and the path given last decide where a run ends. -/
theorem walk_congr (c : Cursor ι) {steps other : List Step}
    (sum : distance other = distance steps) (path : lastPath? other = lastPath? steps) :
    c.walk other = c.walk steps := by
  rw [walk_eq, walk_eq, sum, path]

/-- A sum that stops at the largest word leads as far as the sum itself. -/
theorem advance_min_maxOffset (c : Cursor ι) (n : Nat) :
    c.advance (min n maxOffset) = c.advance n := by
  have bound := c.size_le
  ext1
  · rfl
  · rw [position_advance, position_advance]
    omega
  · rfl

theorem advance_saturatingAdd (c : Cursor ι) (m n : Nat) :
    c.advance (saturatingAdd m n) = (c.advance m).advance n := by
  rw [saturatingAdd, advance_min_maxOffset, advance_advance]

/-- The steps of each group as a single move, over their sum in words. -/
def merged (groups : List (List Step)) : List Step :=
  groups.map fun group => .advance (wordDistance group)

/-- A group whose sum stops has gone past the end of the items, and so has the run. -/
theorem position_walk_merged (c : Cursor ι) (groups : List (List Step)) :
    (c.walk (merged groups)).position = (c.walk groups.flatten).position := by
  induction groups generalizing c with
  | nil => rfl
  | cons group groups ih =>
    have bound := c.size_le
    have rest := ih (c.advance (distance group))
    have count : Step.distance (.advance (wordDistance group)) =
      min (distance group) maxOffset := wordDistance_eq group
    simp only [merged, position_walk, position_advance, items_advance, List.map_cons,
      List.flatten_cons, distance_cons, distance_append, count] at rest ⊢
    omega

/-- The cursor stands right behind the first items: what remains is a slice of the items that
exists, and it is all the others. The next item is the first of those that remain, the
previous one is the last of those in front, and the end is where there is no next one. -/
structure StandsBehind (c : Cursor ι) (front : List (Spanned ι)) : Prop where
  inside : suffix? c.items c.position = some c.remaining
  whole : front ++ c.remaining = c.items.toList
  peek : c.peek = c.remaining.head?
  previous : c.previous = front.getLast?
  atEnd : c.atEnd = true ↔ c.peek = none

/-- Every cursor stands behind what it has consumed. -/
theorem standsBehind_consumed (c : Cursor ι) : c.StandsBehind c.consumed where
  inside := if_pos c.position_le
  whole := c.consumed_append_remaining
  peek := c.peek_eq_head?
  previous := c.previous_eq_getLast?
  atEnd := c.atEnd_iff_peek

end Cursor

namespace Input

open Cursor

/-- The cursor that steps lead to from the first item. -/
def after (input : Input ι) (steps : List Step) : Cursor ι := input.start.walk steps

theorem position_after (input : Input ι) (steps : List Step) :
    (input.after steps).position = min (distance steps) input.size := by
  rw [after, position_walk, start, Nat.zero_add]
  rfl

theorem consumed_after (input : Input ι) (steps : List Step) :
    (input.after steps).consumed = input.start.passed steps :=
  consumed_walk input.start steps

/-- Moving a cursor is exact. After any steps from the first item, the position is their sum, or
the number of items where that is less; so neither their order nor their grouping matters, and
no further step leads back. The items are those of the input, from the path given last, and
the cursor stands right behind those that the steps have taken. -/
theorem position_counts_steps (input : Input ι) (steps : List Step) :
    (input.after steps).items = input.items ∧
    (input.after steps).source = (lastPath? steps).or input.source ∧
    (input.after steps).position = min (distance steps) input.size ∧
    (∀ other, other.Perm steps →
      (input.after other).position = (input.after steps).position ∧
      (lastPath? other = lastPath? steps → input.after other = input.after steps)) ∧
    (∀ groups, groups.flatten = steps →
      (input.after (merged groups)).position = (input.after steps).position) ∧
    (∀ m n,
      ((input.after steps).advance m).advance n = ((input.after steps).advance n).advance m ∧
      (input.after steps).advance (saturatingAdd m n) =
        ((input.after steps).advance m).advance n) ∧
    (∀ more, (input.after steps).position ≤ (input.after (steps ++ more)).position) ∧
    (input.after steps).StandsBehind (input.start.passed steps) := by
  refine ⟨?_, ?_, input.position_after steps, ?_, ?_, ?_, ?_, ?_⟩
  · rw [after, walk_eq]
    rfl
  · rw [after, walk_eq]
    rfl
  · intro other order
    have sum := distance_perm order
    have place : (input.after other).position = (input.after steps).position := by
      rw [position_after, position_after, sum]
    exact ⟨place, walk_congr input.start sum⟩
  · rintro groups rfl
    exact position_walk_merged input.start groups
  · intro m n
    refine ⟨?_, advance_saturatingAdd _ m n⟩
    rw [advance_advance, advance_advance, Nat.add_comm]
  · intro more
    rw [position_after, position_after, distance_append]
    omega
  · rw [← consumed_after]
    exact standsBehind_consumed _

def letters : Input Char :=
  (numbered #['x', 'y', 'z'] 0 (by decide)).withSource ⟨"letters.txt"⟩

/-- Two moves by the largest word are more than a word can count. In whatever order they
come, and also as one, they lead to the end of the letters. -/
theorem position_counts_steps_letters :
    let steps : List Step :=
      [.next, .advance maxOffset, .withSource ⟨"copy.txt"⟩, .advance maxOffset]
    let other : List Step :=
      [.advance maxOffset, .withSource ⟨"copy.txt"⟩, .advance maxOffset, .next]
    let groups : List (List Step) :=
      [[.next], [.advance maxOffset, .withSource ⟨"copy.txt"⟩, .advance maxOffset]]
    wordSize < distance steps ∧ other.Perm steps ∧ lastPath? other = lastPath? steps ∧
      groups.flatten = steps ∧ (letters.after steps).position = 3 ∧
      letters.after other = letters.after steps ∧
      merged groups = [.advance 1, .advance maxOffset] ∧
      (letters.after (merged groups)).position = 3 := by
  intro steps other groups
  have order : other.Perm steps := by decide
  have path : lastPath? other = lastPath? steps := by decide
  have joined : groups.flatten = steps := rfl
  obtain ⟨-, -, position, reordered, grouped, -⟩ := position_counts_steps letters steps
  have ended : (letters.after steps).position = 3 := position.trans (by decide)
  exact ⟨by decide, order, path, joined, ended, (reordered other order).2 path, by decide,
    (grouped groups joined).trans ended⟩

end Input

end SpannedParsing
