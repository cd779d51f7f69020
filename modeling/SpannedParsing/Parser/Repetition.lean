import SpannedParsing.Parser.Basic

/-!
# Repetition

A repetition runs its body again and again and collects the values. It ends at
the first miss, or at the first match that does not advance, which is reported
and not collected; so it always ends. Whether a match advances is told by the
positions alone, also where the body hands back a cursor on other items. An
error of the body ends the parse.

The loop keeps values and events newest first and turns them round at the end,
which lets it run in constant stack space over inputs of any length.
`repeated_apply` states one round without the accumulators.
-/
namespace SpannedParsing.Parser

variable {ι α ε : Type}

/-- The values of a repetition, if there are enough. -/
def enough (atLeast : Nat) (values : List α) (cursor : Cursor ι) : Outcome ι (List α) ε :=
  if values.length < atLeast then .noMatch else .matched values cursor

/-- The loop of a repetition; `values` and `log` are newest first. -/
def gather (body : Parser ι α ε) (atLeast : Nat) (cursor : Cursor ι)
    (values : List α) (log : List Event) : Option (Reply ι (List α) ε) :=
  match body cursor with
  | none => none
  | some ⟨.matched value rest, events⟩ =>
    if cursor.position < rest.position then
      gather body atLeast rest (value :: values) (events.reverseAux log)
    else
      some ⟨enough atLeast values.reverse cursor,
        (Event.noProgress cursor.position :: events.reverseAux log).reverse⟩
  | some ⟨.noMatch, events⟩ =>
    some ⟨enough atLeast values.reverse cursor, (events.reverseAux log).reverse⟩
  | some ⟨.errored error span, events⟩ =>
    some ⟨.errored error span, (events.reverseAux log).reverse⟩
termination_by cursor.room
decreasing_by exact Cursor.room_lt_iff.mpr ‹_›

/-- Collect the values of as many matches in a row as there are, but at least
`atLeast`. -/
def repeated (body : Parser ι α ε) (atLeast : Nat) : Parser ι (List α) ε := fun cursor =>
  gather body atLeast cursor [] []

/-- Adding values in front lowers the number of values still needed. -/
theorem enough_append (n : Nat) (front values : List α) (c : Cursor ι) :
    (enough n (front ++ values) c : Outcome ι (List α) ε) =
      (enough (n - front.length) values c).map (front ++ ·) := by
  have fewer : front.length + values.length < n ↔ values.length < n - front.length := by omega
  simp only [enough, List.length_append, fewer]
  by_cases short : values.length < n - front.length <;> simp [short]

/-- What the accumulators hold stands in front of what the loop still finds. -/
theorem gather_eq_map (body : Parser ι α ε) (n : Nat) (c : Cursor ι) (values : List α)
    (log : List Event) :
    gather body n c values log = (gather body (n - values.length) c [] []).map fun r =>
      ⟨r.outcome.map (values.reverse ++ ·), log.reverse ++ r.log⟩ := by
  induction c using Cursor.inductAhead generalizing n values log with
  | ind c ih =>
    rw [gather.eq_def, gather.eq_def]
    rcases body c with _ | ⟨⟨a, rest⟩ | _ | ⟨e, s⟩, events⟩
    · rfl
    · by_cases moved : c.position < rest.position
      · simp only [moved, if_true]
        rw [ih rest moved, ih rest moved (n - values.length) [a]]
        simp [Nat.sub_sub, Function.comp_def, Outcome.map_map]
      · simp only [moved, if_false]
        have := enough_append (ε := ε) n values.reverse [] c
        simp_all
    · have := enough_append (ε := ε) n values.reverse [] c
      simp_all
    · simp

/-- One round of a repetition, and the rounds after it. -/
theorem repeated_apply (body : Parser ι α ε) (n : Nat) (c : Cursor ι) :
    repeated body n c = match body c with
      | none => none
      | some ⟨.matched a rest, events⟩ =>
        if c.position < rest.position then
          (repeated body (n - 1) rest).map fun r => ⟨r.outcome.map (a :: ·), events ++ r.log⟩
        else some ⟨enough n [] c, events ++ [.noProgress c.position]⟩
      | some ⟨.noMatch, events⟩ => some ⟨enough n [] c, events⟩
      | some ⟨.errored e s, events⟩ => some ⟨.errored e s, events⟩ := by
  rw [repeated, gather.eq_def]
  rcases body c with _ | ⟨⟨a, rest⟩ | _ | ⟨e, s⟩, events⟩ <;> simp [repeated]
  split
  · rw [gather_eq_map]
    simp
  · rfl

end SpannedParsing.Parser
