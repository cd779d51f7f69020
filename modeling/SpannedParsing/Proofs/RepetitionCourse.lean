import Mathlib.Logic.ExistsUnique
import SpannedParsing.Proofs.Reach

/-!
# The course of a repetition

A repetition goes through rounds: the body matches at a cursor and moves on, and the
next round starts where it ended. The course of a repetition is the list of these
rounds together with the cursor where they stop and the reply of the body there, which
is a miss, an error, or a match that does not move on. Every body that stays among its
items has exactly one course from every cursor, and the reply of the repetition is read
off that course: `Course.reply`.

Nothing else is asked of the body. It may match without consuming anything, go back,
or fail.
-/
namespace SpannedParsing

variable {ι α ε : Type}

structure Round (ι α : Type) where
  value : α
  rest : Cursor ι
  log : List Event

/-- The rounds of a repetition, the cursor where they stop, and the reply of the body at
that cursor. -/
structure Course (ι α ε : Type) where
  rounds : List (Round ι α)
  stop : Cursor ι
  last : Reply ι α ε

namespace Parser

/-- Matches among these items stay among them. -/
def StaysAmong (items : Array (Spanned ι)) (p : Parser ι α ε) : Prop :=
  ∀ c, c.items = items → ∀ a d log, p c = some ⟨.matched a d, log⟩ → d.items = items

/-- The parser replies everywhere among these items. -/
def RepliesAmong (items : Array (Spanned ι)) (p : Parser ι α ε) : Prop :=
  ∀ c, c.items = items → ∃ r, p c = some r

/-- Matches of the body in a row, from one cursor to another, each of which moves on. -/
inductive Chain (body : Parser ι α ε) : Cursor ι → List (Round ι α) → Cursor ι → Prop
  | done (c : Cursor ι) : Chain body c [] c
  | round {c d : Cursor ι} {r : Round ι α} {rounds : List (Round ι α)}
      (found : body c = some ⟨.matched r.value r.rest, r.log⟩)
      (moved : c.position < r.rest.position) (more : Chain body r.rest rounds d) :
    Chain body c (r :: rounds) d

end Parser

theorem Outcome.exists_of_isErrored {o : Outcome ι α ε} (failed : o.isErrored = true) :
    ∃ e s, o = .errored e s := by
  rcases o with _ | _ | ⟨e, s⟩
  · exact nomatch failed
  · exact nomatch failed
  · exact ⟨e, s, rfl⟩

namespace Course

/-- The course is that of repeating the body from the cursor on: its rounds lead to the
cursor where it stops, and there the body misses, fails or does not move on. -/
structure IsOf (k : Course ι α ε) (body : Parser ι α ε) (c : Cursor ι) : Prop where
  chain : body.Chain c k.rounds k.stop
  reply : body k.stop = some k.last
  stops : ∀ a rest, k.last.outcome = .matched a rest → rest.position ≤ k.stop.position

def values (k : Course ι α ε) : List α := k.rounds.map Round.value

/-- The events of all rounds and of the last reply, and the report that a match did not
move on, where that is why the course stops. -/
def log (k : Course ι α ε) : List Event :=
  k.rounds.flatMap Round.log ++ k.last.log ++ match k.last.outcome with
    | .matched _ _ => [.noProgress k.stop.position]
    | _ => []

/-- What a repetition that asks for a number of values replies after this course. An
error of the body comes before the question whether there are enough values. -/
def reply (k : Course ι α ε) (atLeast : Nat) : Reply ι (List α) ε where
  outcome := match k.last.outcome with
    | .errored e s => .errored e s
    | _ => Parser.enough atLeast k.values k.stop
  log := k.log

def after (r : Round ι α) (k : Course ι α ε) : Course ι α ε := { k with rounds := r :: k.rounds }

theorem log_after (r : Round ι α) (k : Course ι α ε) : (k.after r).log = r.log ++ k.log := by
  simp [log, after]

/-- One more round in front is one more value found, and one less asked for. -/
theorem reply_after (r : Round ι α) (k : Course ι α ε) (n : Nat) :
    (k.after r).reply n =
      ⟨(k.reply (n - 1)).outcome.map (r.value :: ·), r.log ++ (k.reply (n - 1)).log⟩ := by
  have more : (Parser.enough n (r.value :: k.values) k.stop : Outcome ι (List α) ε) =
      (Parser.enough (n - 1) k.values k.stop).map (r.value :: ·) :=
    Parser.enough_append n [r.value] k.values k.stop
  unfold reply
  rw [log_after]
  simp only [after, values, List.map_cons] at more ⊢
  rcases k.last.outcome with _ | _ | _
  · simp only [more]
  · simp only [more]
  · rfl

section Outcomes

variable (k : Course ι α ε) (n : Nat)

theorem outcome_of_errored {e : ε} {s : Span} (failed : k.last.outcome = .errored e s) :
    (k.reply n).outcome = .errored e s := by
  simp only [reply, failed]

/-- Where the body did not fail, the number of rounds decides. -/
theorem outcome_of_ok (ok : k.last.outcome.isErrored = false) :
    (k.reply n).outcome = if k.rounds.length < n then .noMatch else .matched k.values k.stop := by
  have count : k.values.length = k.rounds.length := List.length_map _
  unfold reply Parser.enough
  rw [count]
  rcases last : k.last.outcome with _ | _ | _
  · rfl
  · rfl
  · simp [last, Outcome.isErrored] at ok

/-- The repetition fails with the error of the body, however many values it asks for. -/
theorem reply_errored_iff (e : ε) (s : Span) :
    (k.reply n).outcome = .errored e s ↔ k.last.outcome = .errored e s := by
  constructor
  · intro failed
    rcases ok : k.last.outcome.isErrored with _ | _
    · rw [outcome_of_ok k n ok] at failed
      split at failed
      · exact nomatch failed
      · exact nomatch failed
    · obtain ⟨e', s', last⟩ := Outcome.exists_of_isErrored ok
      rw [outcome_of_errored k n last] at failed
      obtain ⟨rfl, rfl⟩ := Outcome.errored.inj failed
      exact last
  · exact outcome_of_errored k n

/-- The repetition matches where the body did not fail and there are enough rounds. -/
theorem reply_matched_iff (as : List α) (d : Cursor ι) :
    (k.reply n).outcome = .matched as d ↔
      k.last.outcome.isErrored = false ∧ n ≤ k.rounds.length ∧ as = k.values ∧ d = k.stop := by
  rcases ok : k.last.outcome.isErrored with _ | _
  · rw [outcome_of_ok k n ok]
    by_cases short : k.rounds.length < n
    · have few : ¬ n ≤ k.rounds.length := by omega
      simp [short, few]
    · have enough : n ≤ k.rounds.length := by omega
      simp [short, enough, eq_comm]
  · obtain ⟨e, s, last⟩ := Outcome.exists_of_isErrored ok
    simp [outcome_of_errored k n last]

/-- The repetition misses where the body did not fail and there are too few rounds. -/
theorem reply_noMatch_iff :
    (k.reply n).outcome = .noMatch ↔
      k.last.outcome.isErrored = false ∧ k.rounds.length < n := by
  rcases ok : k.last.outcome.isErrored with _ | _
  · rw [outcome_of_ok k n ok]
    by_cases short : k.rounds.length < n <;> simp [short]
  · obtain ⟨e, s, last⟩ := Outcome.exists_of_isErrored ok
    simp [outcome_of_errored k n last]

end Outcomes

end Course

namespace Parser

variable {body : Parser ι α ε} {c d : Cursor ι} {items : Array (Spanned ι)}

theorem Chain.position_le {rounds : List (Round ι α)} (chain : body.Chain c rounds d) :
    c.position + rounds.length ≤ d.position := by
  induction chain with
  | done c => simp
  | round found moved more ih =>
    rw [List.length_cons]
    omega

theorem Chain.items_eq (stays : body.StaysAmong items) {rounds : List (Round ι α)}
    (chain : body.Chain c rounds d) (there : c.items = items) : d.items = items := by
  induction chain with
  | done c => exact there
  | round found moved more ih => exact ih (stays _ there _ _ _ found)

/-- There are no more rounds than items left. -/
theorem Chain.length_le (stays : body.StaysAmong items) {rounds : List (Round ι α)}
    (chain : body.Chain c rounds d) (there : c.items = items) : rounds.length ≤ c.left := by
  have moved := chain.position_le
  have bound := d.position_le
  rw [chain.items_eq stays there] at bound
  rw [Cursor.left, there]
  omega

theorem isOf_done {last : Reply ι α ε} (reply : body c = some last)
    (stops : ∀ a rest, last.outcome = .matched a rest → rest.position ≤ c.position) :
    (⟨[], c, last⟩ : Course ι α ε).IsOf body c :=
  ⟨.done c, reply, stops⟩

theorem isOf_after {k : Course ι α ε} {r : Round ι α}
    (found : body c = some ⟨.matched r.value r.rest, r.log⟩)
    (moved : c.position < r.rest.position) (rest : k.IsOf body r.rest) :
    (k.after r).IsOf body c :=
  ⟨.round found moved rest.chain, rest.reply, rest.stops⟩

/-- A body that replies has a course from every cursor. -/
theorem exists_course (stays : body.StaysAmong items) (replies : body.RepliesAmong items)
    (there : c.items = items) : ∃ k : Course ι α ε, k.IsOf body c := by
  induction c using Cursor.inductAhead with
  | ind c ih =>
    obtain ⟨⟨o, log⟩, found⟩ := replies c there
    by_cases moved : ∃ a rest, o = .matched a rest ∧ c.position < rest.position
    · obtain ⟨a, rest, rfl, moved⟩ := moved
      obtain ⟨k, course⟩ := ih rest moved (stays c there a rest log found)
      exact ⟨k.after ⟨a, rest, log⟩, isOf_after found moved course⟩
    · refine ⟨_, isOf_done found ?_⟩
      intro a rest matched
      exact Nat.le_of_not_lt fun ahead => moved ⟨a, rest, matched, ahead⟩

/-- The body decides every round, so there is only one course. -/
theorem course_unique {k k' : Course ι α ε} (course : k.IsOf body c) (course' : k'.IsOf body c) :
    k = k' := by
  obtain ⟨rounds, stop, last⟩ := k
  obtain ⟨rounds', stop', last'⟩ := k'
  obtain ⟨chain, reply, stops⟩ := course
  obtain ⟨chain', reply', stops'⟩ := course'
  dsimp only at chain reply stops chain' reply' stops'
  induction chain generalizing rounds' with
  | done c =>
    cases chain' with
    | done =>
      obtain rfl := Option.some.inj (reply.symm.trans reply')
      rfl
    | round found moved more =>
      obtain rfl := Option.some.inj (reply.symm.trans found)
      have stayed := stops _ _ rfl
      omega
  | @round _ _ r _ found moved more ih =>
    cases chain' with
    | done =>
      obtain rfl := Option.some.inj (reply'.symm.trans found)
      have stayed := stops' _ _ rfl
      omega
    | @round _ _ r' rounds' found' moved' more' =>
      have same : r = r' := by
        obtain ⟨outcome, logs⟩ := Reply.mk.inj (Option.some.inj (found.symm.trans found'))
        obtain ⟨values, rests⟩ := Outcome.matched.inj outcome
        cases r
        congr
      subst same
      have tail := ih rounds' reply stops more'
      obtain ⟨rounds, stop, last⟩ := Course.mk.inj tail
      rw [rounds, stop, last]

/-- A repetition replies what its course says. -/
theorem repeated_of_course {k : Course ι α ε} (course : k.IsOf body c) (n : Nat) :
    body.repeated n c = some (k.reply n) := by
  obtain ⟨rounds, stop, last⟩ := k
  obtain ⟨chain, reply, stops⟩ := course
  dsimp only at chain reply stops
  induction chain generalizing n with
  | done c =>
    rw [repeated_apply, reply]
    obtain ⟨⟨a, rest⟩ | _ | ⟨e, s⟩, log⟩ := last
    · have stuck : ¬ c.position < rest.position := Nat.not_lt.mpr (stops a rest rfl)
      simp [stuck, Course.reply, Course.log, Course.values]
    · simp [Course.reply, Course.log, Course.values]
    · simp [Course.reply, Course.log]
  | round found moved more ih =>
    have tail := ih (n - 1) reply stops
    rw [repeated_apply, found]
    simp only [if_pos moved]
    rw [tail, Option.map_some]
    exact congrArg some (Course.reply_after _ ⟨_, _, _⟩ n).symm

/-- What a repetition does, for every body that replies and stays among the items. There is one
course from the cursor on, of no more rounds than items are left. The repetition fails as the
body does at its end, and otherwise matches with the values of the rounds, if there are enough.
Its events are those of the course, and a match is never behind the start. -/
theorem repeated_exact (stays : body.StaysAmong c.items) (replies : body.RepliesAmong c.items)
    (n : Nat) :
    (∃! k : Course ι α ε, k.IsOf body c) ∧
    ∀ k : Course ι α ε, k.IsOf body c →
      k.rounds.length ≤ c.left ∧
      ∃ r, body.repeated n c = some r ∧
        (∀ e s, r.outcome = .errored e s ↔ k.last.outcome = .errored e s) ∧
        (∀ as d, r.outcome = .matched as d ↔
          k.last.outcome.isErrored = false ∧ n ≤ k.rounds.length ∧ as = k.values ∧
            d = k.stop) ∧
        (r.outcome = .noMatch ↔ k.last.outcome.isErrored = false ∧ k.rounds.length < n) ∧
        r.log = k.log ∧
        ∀ as d, r.outcome = .matched as d →
          c.position ≤ d.position ∧ (0 < n → c.position < d.position) := by
  constructor
  · obtain ⟨k, course⟩ := exists_course stays replies rfl
    exact ⟨k, course, fun k' course' => course_unique course' course⟩
  · intro k course
    refine ⟨course.chain.length_le stays rfl, k.reply n, repeated_of_course course n,
      k.reply_errored_iff n, k.reply_matched_iff n, k.reply_noMatch_iff n, rfl, ?_⟩
    intro as d matched
    obtain ⟨-, enough, -, rfl⟩ := (k.reply_matched_iff n as d).mp matched
    have moved := course.chain.position_le
    constructor <;> omega

/-- Step over an `a`, and go back to the start where there is none. -/
def rewind : Parser Item Unit String := ofOutcome fun c =>
  if c.peek.map Spanned.item = some (.char 'a') then .matched () c.next
  else .matched () (c.moveTo 0)

/-- Two rounds step over an `a`; the third one goes back, which is reported and ends the
repetition in front of the `b`. -/
theorem repeated_exact_rewind :
    (∃! k : Course Item Unit String, k.IsOf rewind (Grammar.startOf "aab".toList (by decide))) ∧
      rewind.repeated 2 (Grammar.startOf "aab".toList (by decide)) =
        some ⟨.matched [(), ()] ((Grammar.startOf "aab".toList (by decide)).advance 2),
          [.noProgress 2]⟩ := by
  refine ⟨(repeated_exact ?_ ?_ 2).1, by cbv⟩
  · intro c there a d log found
    unfold rewind at found
    rw [ofOutcome_apply] at found
    split at found
    · obtain ⟨rfl, -⟩ : c.next = d ∧ log = [] := by simpa using found
      exact there
    · obtain ⟨rfl, -⟩ : c.moveTo 0 = d ∧ log = [] := by simpa using found
      exact there
  · intro c _
    exact ⟨_, rfl⟩

end Parser

end SpannedParsing
