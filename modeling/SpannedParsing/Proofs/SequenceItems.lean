import SpannedParsing.Proofs.SeparatedItems

/-!
# Fixed stretches, item by item

A fixed stretch is matched as a whole: it is compared with the items that remain, of which
there have to be enough, and then the cursor moves over all of it at once. The same stretch
can be matched by a parser for each of its items, one after the other (`each`). Both look at
the same items, give the same list and end at the same cursor; for both, a stretch that
runs over the end of the input is a miss like any other.
-/
namespace SpannedParsing

variable {ι ε : Type}

namespace Cursor

theorem next_advance (c : Cursor ι) (n : Nat) : c.next.advance n = c.advance (n + 1) := by
  rw [next, advance_advance, Nat.add_comm]

theorem head?_of_begins {x : ι} {xs : List ι} {c : Cursor ι} (begins : x :: xs <+: c.ahead) :
    c.ahead.head? = some x := by
  obtain ⟨after, whole⟩ := begins
  rw [← whole, List.cons_append, List.head?_cons]

/-- A stretch that lies ahead is not longer than what is left. -/
theorem length_le_left {xs : List ι} {c : Cursor ι} (begins : xs <+: c.ahead) :
    xs.length ≤ c.left := by
  rw [← length_ahead]
  exact begins.length_le

/-- So the cursor moves over all of it, and does not stop at the end before. -/
theorem position_advance_of_begins {xs : List ι} {c : Cursor ι} (begins : xs <+: c.ahead) :
    (c.advance xs.length).position = c.position + xs.length := by
  have enough := length_le_left begins
  have bound := c.position_le
  unfold left at enough
  rw [position_advance]
  omega

variable [DecidableEq ι]

/-- The next items are these if enough are left, and no pair of an item that remains and the
one expected there shows a difference. -/
theorem agrees_eq_zip (xs : List ι) (c : Cursor ι) :
    c.agrees xs = (decide (xs.length ≤ c.left) &&
      (c.remaining.zip xs).all fun pair => decide (pair.1.item = pair.2)) := by
  induction xs generalizing c with
  | nil => simp [agrees]
  | cons x xs ih =>
    rcases peek : c.peek with _ | found
    · have nothing : c.left = 0 := by
        rw [← length_remaining, remaining_eq_nil peek, List.length_nil]
      simp [agrees, peek, nothing]
    · have left : c.left = c.next.left + 1 := by
        rw [← length_remaining, ← length_remaining, remaining_eq_cons peek, List.length_cons]
      rw [agrees, peek, remaining_eq_cons peek, List.zip_cons_cons, List.all_cons, left,
        List.length_cons]
      simp only [ih, Nat.add_le_add_iff_right, eq_comm]
      exact Bool.and_left_comm _ _ _

end Cursor

namespace Parser

variable [DecidableEq ι]

/-- The items one after the other: each of them in front of the list of those that follow,
and the last one as a list of its own. -/
def each (x : ι) : List ι → Parser ι (List ι) ε
  | [] => (just x).map fun y => [y]
  | y :: ys => (just x).cons (each y ys)

/-- A stretch is found where it is the beginning of what lies ahead. -/
theorem sequence_apply (x : ι) (xs : List ι) (c : Cursor ι) :
    (sequence (x :: xs) : Parser ι (List ι) ε) c =
      some ⟨if x :: xs <+: c.ahead then .matched (x :: xs) (c.advance (xs.length + 1))
        else .noMatch, []⟩ := by
  have test : c.startsWith (x :: xs) = true ↔ x :: xs <+: c.ahead := by
    rw [Cursor.startsWith_cons, Cursor.agrees_iff, Cursor.ahead]
  simp only [sequence, ofOutcome_apply, test, List.length_cons]

/-- Its items one after the other are found there too. -/
theorem each_apply (x : ι) (xs : List ι) (c : Cursor ι) :
    (each x xs : Parser ι (List ι) ε) c =
      some ⟨if x :: xs <+: c.ahead then .matched (x :: xs) (c.advance (xs.length + 1))
        else .noMatch, []⟩ := by
  induction xs generalizing x c with
  | nil =>
    rw [each, map_apply, just_apply]
    by_cases here : c.ahead.head? = some x
    · have begins : [x] <+: c.ahead := by
        rw [(Cursor.Reads.of_head? here).ahead]
        exact List.prefix_append _ _
      simp [here, begins, Cursor.next]
    · have other : ¬ [x] <+: c.ahead := fun begins => here (Cursor.head?_of_begins begins)
      simp [here, other]
  | cons y ys ih =>
    by_cases here : c.ahead.head? = some x
    · have first : (just x : Parser ι ι ε) c = some ⟨.matched x c.next, []⟩ := by
        rw [just_apply, if_pos here]
      have ahead : c.ahead = x :: c.next.ahead := (Cursor.Reads.of_head? here).ahead
      rw [each, cons, andThen_of_matched first, map_apply, ih, ahead]
      by_cases rest : y :: ys <+: c.next.ahead
      · simp [rest, Cursor.next_advance, Reply.after]
      · simp [rest, Reply.after]
    · have missed : (just x : Parser ι ι ε) c = some ⟨.noMatch, []⟩ := by
        rw [just_apply, if_neg here]
      have other : ¬ x :: y :: ys <+: c.ahead := fun begins => here (Cursor.head?_of_begins begins)
      rw [each, cons, andThen_of_noMatch missed, if_neg other]

/-- Matching a stretch as a whole is matching its items one by one, for every stretch that is not
empty. It is found exactly where it is the beginning of what lies ahead, with the cursor as
many items further on. Everywhere else it is a miss, and so it is where less is left than the
stretch is long, however long the whole input is. -/
theorem sequence_item_by_item (x : ι) (xs : List ι) (c : Cursor ι) :
    (sequence (x :: xs) : Parser ι (List ι) ε) c = each x xs c ∧
    c.startsWith (x :: xs) = (decide ((x :: xs).length ≤ c.left) &&
      (c.remaining.zip (x :: xs)).all fun pair => decide (pair.1.item = pair.2)) ∧
    (∀ found d log, (sequence (x :: xs) : Parser ι (List ι) ε) c = some ⟨.matched found d, log⟩ ↔
      x :: xs <+: c.ahead ∧ found = x :: xs ∧ d = c.advance (x :: xs).length ∧ log = []) ∧
    (x :: xs <+: c.ahead →
      (c.advance (x :: xs).length).position = c.position + (x :: xs).length) ∧
    ((sequence (x :: xs) : Parser ι (List ι) ε) c = some ⟨.noMatch, []⟩ ↔
      ¬ x :: xs <+: c.ahead) ∧
    (c.left < (x :: xs).length →
      (sequence (x :: xs) : Parser ι (List ι) ε) c = some ⟨.noMatch, []⟩) := by
  have whole := sequence_apply (ε := ε) x xs c
  refine ⟨by rw [whole, each_apply], ?_, ?_, Cursor.position_advance_of_begins, ?_, ?_⟩
  · rw [Cursor.startsWith_cons, Cursor.agrees_eq_zip]
  · intro found d log
    rw [whole]
    by_cases begins : x :: xs <+: c.ahead
    · simp only [begins, if_true, true_and, Option.some.injEq, Reply.mk.injEq,
        Outcome.matched.injEq, and_assoc, List.length_cons, eq_comm]
    · simp [begins]
  · rw [whole]
    by_cases begins : x :: xs <+: c.ahead
    · simp [begins]
    · simp [begins]
  · intro short
    have other : ¬ x :: xs <+: c.ahead := fun begins =>
      Nat.not_le_of_lt short (Cursor.length_le_left begins)
    rw [whole, if_neg other]

end Parser

end SpannedParsing
