import SpannedParsing.Proofs.ListSettings
import SpannedParsing.Proofs.Reading

/-!
# Laws of repetition

A repetition is a loop that collects values. Here it is compared with other ways to write
the same parser.

The first one is a recursion: a value in front of the list that follows it, or the empty
list. The recursion builds its list on the way back and has no test for progress, so it is
the same parser only for a body that moves on with every match; for such a body, both give
the same replies, down to the events (`recursiveList_eq_repeated`).

The second one puts something around the body that matches where the body misses: an
option, a default, a truth value, or another repetition. What stops the loop is then a
match that does not move on, and no longer a miss. The values, the end and the count are
the same all the same, for every body (`outcomeAt_repeated_filled`,
`outcomeAt_repeated_repeated`). The events are not: such an end is reported.
-/
namespace SpannedParsing.Parser

variable {ι α β ε : Type}

/-- Matches among these items stay among them and move on. -/
def MovesOn (items : Array (Spanned ι)) (p : Parser ι α ε) : Prop :=
  ∀ c, c.items = items → ∀ a d log, p c = some ⟨.matched a d, log⟩ →
    d.items = items ∧ c.position < d.position

def valueThenList (body : Parser ι α ε) (list : Unit → Parser ι (List α) ε) (rule : Unit) :
    Parser ι (List α) ε :=
  (body.cons (list rule)).orDefault []

/-- The list of values that calls itself for the values behind the first one, for at most
`depth` calls inside each other. -/
def recursiveList (body : Parser ι α ε) (depth : Nat) : Parser ι (List α) ε :=
  nested (valueThenList body) depth ()

section Recursion

variable {body : Parser ι α ε} {items : Array (Spanned ι)} {c : Cursor ι}

theorem MovesOn.left_lt (moves : body.MovesOn items) (there : c.items = items) {a : α}
    {d : Cursor ι} {log : List Event} (found : body c = some ⟨.matched a d, log⟩) :
    d.left < c.left := by
  obtain ⟨there', ahead⟩ := moves c there a d log found
  have bound := d.position_le
  rw [there'] at bound
  rw [Cursor.left, Cursor.left, there, there']
  omega

/-- The parser of the list runs only behind the matches of the value. -/
theorem cons_congr {p : Parser ι α ε} {q q' : Parser ι (List α) ε}
    (behind : ∀ a rest log, p c = some ⟨.matched a rest, log⟩ → q rest = q' rest) :
    p.cons q c = p.cons q' c := by
  unfold cons andThen
  rcases found : p c with _ | ⟨⟨a, rest⟩ | _ | ⟨e, s⟩, log⟩
  · rw [branch_none found, branch_none found]
  · rw [branch_matched found, branch_matched found, map_apply, map_apply, behind a rest log found]
  · rw [branch_noMatch found, branch_noMatch found]
  · rw [branch_errored found, branch_errored found]

theorem orDefault_congr {p q : Parser ι α ε} (same : p c = q c) (default : α) :
    p.orDefault default c = q.orDefault default c := by
  simp only [orDefault, orElse, branch, same]

/-- Asking for one more value is asking for one in front. -/
theorem repeated_succ (moves : body.MovesOn items) (there : c.items = items) (n : Nat) :
    body.repeated (n + 1) c = body.cons (body.repeated n) c := by
  rw [repeated_apply]
  unfold cons andThen
  rcases found : body c with _ | ⟨⟨a, rest⟩ | _ | ⟨e, s⟩, log⟩
  · rw [branch_none found]
  · rw [branch_matched found, map_apply, Option.map_map]
    simp only [if_pos (moves c there a rest log found).2, Nat.add_sub_cancel]
    rfl
  · rw [branch_noMatch found]
    simp [enough, Reply.after]
  · rw [branch_errored found]

/-- Asking for nothing is asking for one value, or for none at all. -/
theorem repeated_zero (moves : body.MovesOn items) (there : c.items = items) :
    body.repeated 0 c = (body.cons (body.repeated 0)).orDefault [] c := by
  rw [repeated_apply]
  unfold orDefault orElse cons andThen
  rcases found : body c with _ | ⟨⟨a, rest⟩ | _ | ⟨e, s⟩, log⟩
  · simp [branch, found]
  · -- the list behind a value does not miss, so the default is not reached any more
    have tail := repeated_zero_ne_noMatch body rest
    have moved := (moves c there a rest log found).2
    rcases more : body.repeated 0 rest with _ | ⟨⟨as, d⟩ | _ | ⟨e, s⟩, log'⟩
    · simp [branch, found, map_apply, more, moved]
    · simp [branch, found, map_apply, more, moved, Reply.after]
    · exact absurd more (tail log')
    · simp [branch, found, map_apply, more, moved, Reply.after]
  · simp [branch, found, enough, Reply.after]
  · simp [branch, found]

/-- The recursion replies as the loop does, if it may call itself once more than there are
items left. -/
theorem recursiveList_eq_repeated (moves : body.MovesOn items) (there : c.items = items)
    {depth : Nat} (deep : c.left < depth) : recursiveList body depth c = body.repeated 0 c := by
  induction depth generalizing c with
  | zero => omega
  | succ depth ih =>
    rw [repeated_zero moves there]
    refine orDefault_congr (cons_congr ?_) []
    intro a rest log found
    have smaller := moves.left_lt there found
    exact ih (moves c there a rest log found).1 (by omega)

theorem keepsOrder_valueThenList (body : Parser ι α ε) : KeepsOrder (valueThenList body) := by
  intro list list' more r
  exact ((Approximates.refl body).andThen fun _ => (more r).map _).orElse (.refl _)

/-- A repetition is a recursion, for every body that moves on with each of its matches. From some
depth of calls on, the list that calls itself for the values behind the first one replies as
the repetition does, and a reply of less depth is the same one. A repetition that asks for one
more value is a value in front of the repetition. -/
theorem repetition_is_recursion (moves : body.MovesOn c.items) :
    (∀ depth, c.left < depth → recursiveList body depth c = body.repeated 0 c) ∧
    (∀ depth r, recursiveList body depth c = some r → body.repeated 0 c = some r) ∧
    (∀ n, body.repeated (n + 1) c = body.cons (body.repeated n) c) ∧
    (body.RepliesAmong c.items → ∀ n, ∃ r, body.repeated n c = some r) := by
  refine ⟨fun depth deep => recursiveList_eq_repeated moves rfl deep, ?_,
    repeated_succ moves rfl, ?_⟩
  · intro depth r found
    have deeper := nested_mono (keepsOrder_valueThenList body)
      (Nat.le_max_left depth (c.left + 1)) () c r found
    rw [← recursiveList_eq_repeated moves rfl (Nat.lt_of_succ_le (Nat.le_max_right depth _))]
    exact deeper
  · intro replies n
    have stays : body.StaysAmong c.items := fun d there a e log found =>
      (moves d there a e log found).1
    exact (TotalAmong.repeated ⟨stays, replies⟩ n).replies c rfl

end Recursion

/-- A minus, which has to be followed by a digit. -/
def negative : Parser Item Item String :=
  (just (.char '-')).keepRight ((satisfy Item.isDigit).require "digit expected")

theorem movesOn_negative (items : Array (Spanned Item)) : negative.MovesOn items := by
  intro c there x d log found
  obtain ⟨_, rest, l, m, minus, required, -⟩ := matched_of_andThen found
  obtain digit | ⟨_, _, -, unmet, -⟩ := matched_of_orElse required
  · have both := (reads_of_satisfy minus).2.trans (reads_of_satisfy digit).2
    refine ⟨both.items.trans there, ?_⟩
    rw [both.position]
    simp
  · exact nomatch unmet

/-- Two digits are found and dropped, and the third round fails; the recursion fails in the
third call, with the same error and the same report. -/
theorem repetition_is_recursion_negative :
    let c := Grammar.startOf "-1-2-x".toList (by decide)
    (negative.repeated 0 c).map (fun r => (r.outcome.isErrored, r.log)) =
      some (true, [.requirementMissed 5 ⟨4, 5⟩]) ∧
    recursiveList negative 7 c = negative.repeated 0 c ∧
    negative.repeated 3 c = negative.cons (negative.repeated 2) c := by
  intro c
  obtain ⟨deep, -, more, -⟩ := repetition_is_recursion (movesOn_negative c.items)
  exact ⟨by decide +kernel, deep 7 (by decide), more 2⟩

/-- One round of a repetition and the rounds after it, without the events. -/
theorem outcomeAt_repeated (body : Parser ι α ε) (n : Nat) (c : Cursor ι) :
    outcomeAt (body.repeated n) c = match body c with
      | none => none
      | some ⟨.matched a rest, _⟩ =>
        if c.position < rest.position then
          (outcomeAt (body.repeated (n - 1)) rest).map (Outcome.map (a :: ·))
        else some (enough n [] c)
      | some ⟨.noMatch, _⟩ => some (enough n [] c)
      | some ⟨.errored e s, _⟩ => some (.errored e s) := by
  rw [outcomeAt, repeated_apply]
  rcases body c with _ | ⟨⟨a, rest⟩ | _ | ⟨e, s⟩, events⟩
  · rfl
  · by_cases moved : c.position < rest.position
    · simp [moved, outcomeAt, Function.comp_def]
    · simp [moved]
  · rfl
  · rfl

theorem map_enough_nil (f : α → β) (n : Nat) (c : Cursor ι) :
    (enough n [] c : Outcome ι (List α) ε).map (List.map f) = enough n [] c := by
  unfold enough
  simp only [List.length_nil]
  split
  · rfl
  · rfl

/-- A body that matches with some value wherever it would miss, and whose other values are
changed, is repeated as the body itself. That value is found without moving on, so it ends
the repetition where the miss would, and is not collected. -/
theorem outcomeAt_repeated_filled (body : Parser ι α ε) (f : α → β) (filling : β) (n : Nat)
    (c : Cursor ι) :
    outcomeAt ((body.branch (fun a => succeed (f a)) (succeed filling)).repeated n) c =
      (outcomeAt (body.repeated n) c).map (Outcome.map (List.map f)) := by
  induction c using Cursor.inductAhead generalizing n with
  | ind c ih =>
    rw [outcomeAt_repeated, outcomeAt_repeated body]
    rcases found : body c with _ | ⟨⟨a, rest⟩ | _ | ⟨e, s⟩, log⟩
    · rw [branch_none found]
      rfl
    · rw [branch_matched found]
      by_cases moved : c.position < rest.position
      · have tail := ih rest moved (n - 1)
        simp [Reply.after, moved, tail, Function.comp_def]
      · simp [Reply.after, moved, map_enough_nil]
    · rw [branch_noMatch found]
      simp [Reply.after, map_enough_nil]
    · rw [branch_errored found]
      rfl

/-- Where a repetition has stopped, it stops again at once. -/
theorem repeated_at_stop {body : Parser ι α ε} {n : Nat} {c d : Cursor ι} {as : List α}
    {log : List Event} (h : body.repeated n c = some ⟨.matched as d, log⟩) :
    ∃ log', body.repeated 0 d = some ⟨.matched [] d, log'⟩ := by
  obtain ⟨⟨⟨a, rest⟩ | _ | ⟨e, s⟩, events⟩, reply, ok, stuck⟩ := reply_at_stop h
  · have still : ¬ d.position < rest.position := Nat.not_lt.mpr (stuck a rest rfl)
    refine ⟨events ++ [.noProgress d.position], ?_⟩
    rw [repeated_apply, reply]
    simp [still, enough]
  · refine ⟨events, ?_⟩
    rw [repeated_apply, reply]
    simp [enough]
  · cases ok

/-- A repetition of a repetition has one round, with all values in it. The second round
starts where the first one has stopped, and does not move on. -/
theorem outcomeAt_repeated_repeated (body : Parser ι α ε) (c : Cursor ι) :
    outcomeAt ((body.repeated 0).repeated 0) c =
      (outcomeAt (body.repeated 0) c).map
        (Outcome.map fun values => if values = [] then [] else [values]) := by
  rw [outcomeAt_repeated, outcomeAt]
  rcases found : body.repeated 0 c with _ | ⟨⟨as, d⟩ | _ | ⟨e, s⟩, log⟩
  · rfl
  · obtain ⟨rounds, -⟩ := rounds_of_repeated found
    obtain ⟨log', again⟩ := repeated_at_stop found
    have second : outcomeAt ((body.repeated 0).repeated 0) d = some (.matched [] d) := by
      rw [outcomeAt_repeated, again]
      simp [enough]
    cases rounds with
    | done => simp [enough]
    | round _ moved more =>
      have stays := more.position_le
      have ahead : c.position < d.position := by omega
      simp [ahead, second]
  · exact absurd found (repeated_zero_ne_noMatch body c log)
  · rfl

/-- What stands in for a miss makes no difference inside a repetition. With an option around its
body, each value is present; with a default, the default is nowhere in the values; with a truth
value, each value is `true`; and with another repetition, all values are in one list, or there
is no list where there is no value. -/
theorem fillings_neutral (body : Parser ι α ε) (n : Nat) (default : α) (c : Cursor ι) :
    outcomeAt (body.optional.repeated n) c =
      (outcomeAt (body.repeated n) c).map (Outcome.map (List.map some)) ∧
    outcomeAt ((body.orDefault default).repeated n) c = outcomeAt (body.repeated n) c ∧
    outcomeAt (body.boolean.repeated n) c =
      (outcomeAt (body.repeated n) c).map (Outcome.map (List.map fun _ => true)) ∧
    outcomeAt ((body.repeated 0).repeated 0) c =
      (outcomeAt (body.repeated 0) c).map
        (Outcome.map fun values => if values = [] then [] else [values]) ∧
    (body.TotalAmong c.items → ∀ m, ∃ o, outcomeAt (body.repeated m) c = some o) := by
  refine ⟨outcomeAt_repeated_filled body some none n c, ?_,
    outcomeAt_repeated_filled body (fun _ => true) false n c,
    outcomeAt_repeated_repeated body c, ?_⟩
  · have unchanged : (Outcome.map id : Outcome ι (List α) ε → Outcome ι (List α) ε) = id :=
      funext Outcome.map_id
    have filled := outcomeAt_repeated_filled body id default n c
    rw [List.map_id_fun, unchanged, Option.map_id_fun] at filled
    exact filled
  · intro total m
    obtain ⟨r, found⟩ := (total.repeated m).replies c rfl
    exact ⟨r.outcome, by rw [outcomeAt, found]; rfl⟩

end SpannedParsing.Parser
