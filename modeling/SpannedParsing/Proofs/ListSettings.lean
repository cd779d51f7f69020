import SpannedParsing.Proofs.ListComposition
import SpannedParsing.Proofs.Progress
import SpannedParsing.Proofs.RepetitionCourse

/-!
# What the settings of a list change

A minimum of values is a test on a result that was found without it: a repetition and a
list with separators that ask for some values find what they would find without asking,
or miss where that is too little. A separator that may stand behind the last item moves
the cursor behind it, and changes nothing else.

Both are read off one description. The plain list, which asks for nothing and takes no
separator behind its last item, decides on everything; `outcomeAt_separated` says how the
settings act on what it finds. They can do so because of where the pairs behind the first
item stop. The separator was run there as the first half of a pair, so it replies there,
and an error of it would have ended the pairs.

Nothing is assumed of the item and the separator, except where a reply is promised.
-/
namespace SpannedParsing

variable {ι α β σ ε : Type}

/-- A stricter setting leaves an outcome as it is, or turns a match into a miss. -/
def Outcome.Tightens (o o' : Outcome ι α ε) : Prop :=
  o' = o ∨ o.isMatched = true ∧ o' = .noMatch

namespace Parser

/-- The outcome at a cursor, without the events. -/
def outcomeAt (p : Parser ι α ε) (c : Cursor ι) : Option (Outcome ι α ε) :=
  (p c).map Reply.outcome

/-- Among these items, the parser always replies, and its matches stay among them. -/
structure TotalAmong (items : Array (Spanned ι)) (p : Parser ι α ε) : Prop where
  stays : p.StaysAmong items
  replies : p.RepliesAmong items

/-- The cursor behind a match of the parser; the cursor itself where there is none. -/
def stepOver (p : Parser ι σ ε) (c : Cursor ι) : Cursor ι :=
  match p c with
  | some ⟨.matched _ rest, _⟩ => rest
  | _ => c

/-- Where a list ends whose last item ends at a cursor. Nothing stands behind a list
without items. -/
def listEnd (trailing : Bool) (separator : Parser ι σ ε) (values : List α) (c : Cursor ι) :
    Cursor ι :=
  if trailing = true ∧ values ≠ [] then separator.stepOver c else c

section Branch

variable {p : Parser ι α ε} {hit : α → Parser ι β ε} {other : Parser ι β ε} {c rest : Cursor ι}
  {a : α} {log : List Event}

theorem outcomeAt_of_none (h : p c = none) : outcomeAt (p.branch hit other) c = none := by
  rw [outcomeAt, branch_none h]
  rfl

theorem outcomeAt_of_matched (h : p c = some ⟨.matched a rest, log⟩) :
    outcomeAt (p.branch hit other) c = outcomeAt (hit a) rest := by
  rw [outcomeAt, branch_matched h, Option.map_map]
  rfl

theorem outcomeAt_of_noMatch (h : p c = some ⟨.noMatch, log⟩) :
    outcomeAt (p.branch hit other) c = outcomeAt other c := by
  rw [outcomeAt, branch_noMatch h, Option.map_map]
  rfl

theorem outcomeAt_of_errored {e : ε} {s : Span} (h : p c = some ⟨.errored e s, log⟩) :
    outcomeAt (p.branch hit other) c = some (.errored e s) := by
  rw [outcomeAt, branch_errored h]
  rfl

end Branch

theorem enough_of_le {n : Nat} {as : List α} (h : n ≤ as.length) (d : Cursor ι) :
    (enough n as d : Outcome ι (List α) ε) = .matched as d :=
  if_neg (by omega)

theorem enough_of_lt {n : Nat} {as : List α} (h : as.length < n) (d : Cursor ι) :
    (enough n as d : Outcome ι (List α) ε) = .noMatch :=
  if_pos h

theorem eq_of_enough {n : Nat} {as bs : List α} {c d : Cursor ι}
    (h : (enough n as c : Outcome ι (List α) ε) = .matched bs d) :
    n ≤ bs.length ∧ bs = as ∧ d = c := by
  by_cases many : n ≤ as.length
  · rw [enough_of_le many] at h
    obtain ⟨rfl, rfl⟩ := Outcome.matched.inj h
    exact ⟨many, rfl, rfl⟩
  · rw [enough_of_lt (by omega)] at h
    exact nomatch h

/-- A repetition runs in the same way whatever it asks for; only its end is different. -/
theorem repeated_eq_enough (body : Parser ι α ε) (n : Nat) (c : Cursor ι) :
    body.repeated n c = (body.repeated 0 c).map fun r =>
      ⟨r.outcome.andThen (enough n), r.log⟩ := by
  induction c using Cursor.inductAhead generalizing n with
  | ind c ih =>
    rw [repeated_apply, repeated_apply]
    rcases body c with _ | ⟨⟨a, rest⟩ | _ | ⟨e, s⟩, events⟩
    · rfl
    · by_cases moved : c.position < rest.position
      · have more (as : List α) (d : Cursor ι) :
            (enough (n - 1) as d : Outcome ι (List α) ε).map (a :: ·) = enough n (a :: as) d :=
          (enough_append n [a] as d).symm
        simp only [if_pos moved]
        rw [ih rest moved (n - 1)]
        rcases body.repeated 0 rest with _ | ⟨⟨as, d⟩ | _ | ⟨e, s⟩, log⟩
        · rfl
        · simp [Outcome.andThen, more]
        · rfl
        · rfl
      · simp [moved, Outcome.andThen, enough]
    · simp [Outcome.andThen, enough]
    · rfl

theorem check_eq_enough (p : Parser ι (List α) ε) (n : Nat) (c : Cursor ι) :
    p.check (fun as => decide (n ≤ as.length)) c = (p c).map fun r =>
      ⟨r.outcome.andThen (enough n), r.log⟩ := by
  rw [check_apply]
  rcases p c with _ | ⟨⟨as, d⟩ | _ | ⟨e, s⟩, log⟩
  · rfl
  · by_cases many : n ≤ as.length
    · simp [many, Outcome.andThen, enough_of_le]
    · have few : as.length < n := by omega
      simp [many, Outcome.andThen, enough_of_lt few]
  · rfl
  · rfl

theorem repeated_eq_check (body : Parser ι α ε) (n : Nat) :
    body.repeated n = (body.repeated 0).check fun as => decide (n ≤ as.length) := by
  funext c
  rw [check_eq_enough]
  exact repeated_eq_enough body n c

theorem outcomeAt_check (p : Parser ι (List α) ε) (n : Nat) (c : Cursor ι) :
    outcomeAt (p.check fun as => decide (n ≤ as.length)) c =
      (outcomeAt p c).map fun o => o.andThen (enough n) := by
  unfold outcomeAt
  rw [check_eq_enough, Option.map_map, Option.map_map]
  rfl

/-- The outcomes for every minimum: a larger one is stricter, and a match holds as many
values as were asked for. -/
structure TightensWithMinimum (outcomes : Nat → Option (Outcome ι (List α) ε)) : Prop where
  tightens : ∀ m n, m ≤ n → Option.Rel Outcome.Tightens (outcomes m) (outcomes n)
  enough : ∀ n as d, outcomes n = some (.matched as d) → n ≤ as.length

theorem tightens_enough {m n : Nat} (le : m ≤ n) (o : Outcome ι (List α) ε) :
    (o.andThen (enough m)).Tightens (o.andThen (enough n)) := by
  rcases o with ⟨as, d⟩ | _ | ⟨e, s⟩
  · show (enough m as d).Tightens (enough n as d)
    by_cases many : n ≤ as.length
    · rw [enough_of_le many, enough_of_le (by omega)]
      exact .inl rfl
    · rw [enough_of_lt (by omega : as.length < n)]
      by_cases fewer : m ≤ as.length
      · rw [enough_of_le fewer]
        exact .inr ⟨rfl, rfl⟩
      · rw [enough_of_lt (by omega)]
        exact .inl rfl
  · exact .inl rfl
  · exact .inl rfl

/-- Outcomes that test one result for its length are stricter for a larger minimum. -/
theorem tightensWithMinimum_of_enough {outcomes : Nat → Option (Outcome ι (List α) ε)}
    {result : Option (Outcome ι (List α) ε)}
    (test : ∀ n, outcomes n = result.map fun o => o.andThen (enough n)) :
    TightensWithMinimum outcomes where
  tightens m n le := by
    rw [test m, test n]
    rcases result with _ | o
    · exact .none
    · exact .some (tightens_enough le o)
  enough n as d found := by
    rw [test n, Option.map_eq_some_iff] at found
    obtain ⟨⟨bs, rest⟩ | _ | ⟨e, s⟩, -, matched⟩ := found
    · exact (eq_of_enough matched).1
    · exact nomatch matched
    · exact nomatch matched

/-- Where a repetition stops with a match, its body has replied, and neither with an error
nor with a match that moves on. -/
theorem reply_at_stop {body : Parser ι α ε} {n : Nat} {c d : Cursor ι} {as : List α}
    {log : List Event} (h : body.repeated n c = some ⟨.matched as d, log⟩) :
    ∃ r, body d = some r ∧ r.outcome.isErrored = false ∧
      ∀ a rest, r.outcome = .matched a rest → rest.position ≤ d.position := by
  induction c using Cursor.inductAhead generalizing n as log with
  | ind c ih =>
    rw [repeated_apply] at h
    rcases found : body c with _ | ⟨⟨a, rest⟩ | _ | ⟨e, s⟩, events⟩
    · simp [found] at h
    · simp only [found] at h
      by_cases moved : c.position < rest.position
      · rw [if_pos moved, Option.map_eq_some_iff] at h
        obtain ⟨⟨⟨bs, last⟩ | _ | ⟨e, s⟩, more⟩, tail, same⟩ := h
        · obtain ⟨-, rfl⟩ := Outcome.matched.inj (Reply.mk.inj same).1
          exact ih rest moved tail
        · exact nomatch (Reply.mk.inj same).1
        · exact nomatch (Reply.mk.inj same).1
      · rw [if_neg moved] at h
        obtain ⟨-, -, rfl⟩ := eq_of_enough (Reply.mk.inj (Option.some.inj h)).1
        refine ⟨_, found, rfl, ?_⟩
        rintro b rest' ⟨⟩
        exact Nat.le_of_not_lt moved
    · simp only [found] at h
      obtain ⟨-, -, rfl⟩ := eq_of_enough (Reply.mk.inj (Option.some.inj h)).1
      exact ⟨_, found, rfl, fun _ _ matched => nomatch matched⟩
    · simp [found] at h

/-- An error of the body at the end of some rounds is the error of the repetition. -/
theorem outcomeAt_of_rounds {body : Parser ι α ε} {c d : Cursor ι} {as : List α}
    (rounds : Rounds body c as d) {e : ε} {s : Span} {log : List Event}
    (failed : body d = some ⟨.errored e s, log⟩) (n : Nat) :
    outcomeAt (body.repeated n) c = some (.errored e s) := by
  induction rounds generalizing n with
  | done c =>
    rw [outcomeAt, repeated_apply, failed]
    rfl
  | round found moved more ih =>
    obtain ⟨r, reply, outcome⟩ := Option.map_eq_some_iff.mp (ih failed (n - 1))
    rw [outcomeAt, repeated_apply, found]
    simp [moved, reply, outcome]

variable {item : Parser ι α ε} {separator : Parser ι σ ε}

/-- The separator is the first half of a pair, so it has replied where the pairs stop. -/
theorem separator_at_stop {n : Nat} {c d : Cursor ι} {as : List α} {log : List Event}
    (h : (separator.keepRight item).repeated n c = some ⟨.matched as d, log⟩) :
    ∃ r, separator d = some r ∧ r.outcome.isErrored = false := by
  obtain ⟨r, pair, ok, -⟩ := reply_at_stop h
  rcases found : separator d with _ | ⟨o | _ | ⟨e, s⟩, events⟩
  · rw [keepRight, andThen, branch_none found] at pair
    cases pair
  · exact ⟨_, rfl, rfl⟩
  · exact ⟨_, rfl, rfl⟩
  · rw [keepRight, andThen, branch_errored found] at pair
    obtain rfl := Option.some.inj pair
    cases ok

/-- A list that takes no separator behind it stops where its pairs do, and the separator has
replied there. -/
theorem separator_at_end {form : ListForm} (plain : form.trailing = false) {c d : Cursor ι}
    {as : List α} {log : List Event}
    (h : item.separated separator form c = some ⟨.matched as d, log⟩) (nonempty : as ≠ []) :
    ∃ r, separator d = some r ∧ r.outcome.isErrored = false := by
  rw [separated_apply] at h
  obtain ⟨-, start, l, m, -, list, -⟩ := matched_of_andThen h
  obtain ⟨first, rest, l', m', -, tail, -⟩ | ⟨l', m', -, missing, -⟩ := matched_of_branch list
  · obtain ⟨more, stop, l'', m'', pairs, closed, -⟩ | ⟨l'', m'', -, short, -⟩ :=
      matched_of_branch tail
    · rw [plain, skipIf_false] at closed
      obtain ⟨_, stays, -⟩ := matched_of_map closed
      obtain ⟨rfl, -⟩ : stop = d ∧ [] = m'' := by simpa using stays
      exact separator_at_stop pairs
    · exact nomatch short
  · have outcome := (Reply.mk.inj (Option.some.inj missing)).1
    split at outcome
    · exact absurd (Outcome.matched.inj outcome).1.symm nonempty
    · exact nomatch outcome

/-- A separator that has replied without an error can be stepped over. -/
theorem skipIf_of_ok {d : Cursor ι} {r : Reply ι σ ε} (reply : separator d = some r)
    (ok : r.outcome.isErrored = false) (trailing : Bool) :
    ∃ log, skipIf trailing separator d =
      some ⟨.matched () (if trailing = true then separator.stepOver d else d), log⟩ := by
  cases trailing with
  | false => exact ⟨[], rfl⟩
  | true =>
    rcases r with ⟨⟨b, rest⟩ | _ | ⟨e, s⟩, log⟩
    · exact ⟨log, by simp [skipIf, branch, stepOver, reply, Reply.after]⟩
    · exact ⟨log, by simp [skipIf, branch, stepOver, reply, Reply.after]⟩
    · cases ok

/-- Behind the first item, the pairs decide; the settings act on what they find. -/
theorem outcomeAt_following (form : ListForm) (first : α) (c : Cursor ι) :
    outcomeAt (following item separator form (tooShort form.atLeast) first) c =
      (outcomeAt ((separator.keepRight item).repeated 0) c).map fun o =>
        o.andThen fun more d =>
          enough form.atLeast (first :: more)
            (listEnd form.trailing separator (first :: more) d) := by
  have bound := repeated_eq_enough (separator.keepRight item) (form.atLeast - 1) c
  unfold following pairs
  rcases found : (separator.keepRight item).repeated 0 c with
    _ | ⟨⟨more, d⟩ | _ | ⟨e, s⟩, log⟩
  · rw [found] at bound
    rw [outcomeAt_of_none bound, outcomeAt, found]
    rfl
  · obtain ⟨r, reply, ok⟩ := separator_at_stop found
    obtain ⟨log', skipped⟩ := skipIf_of_ok reply ok form.trailing
    have plain : outcomeAt ((separator.keepRight item).repeated 0) c = some (.matched more d) := by
      rw [outcomeAt, found]
      rfl
    rw [found] at bound
    rw [plain]
    simp only [Option.map_some, Outcome.andThen] at bound ⊢
    -- The pairs are counted before the last separator is tried. As that one cannot fail, it
    -- makes no difference that too few pairs end the list without it.
    by_cases short : more.length < form.atLeast - 1
    · rw [enough_of_lt short] at bound
      rw [outcomeAt_of_noMatch bound, enough_of_lt (by rw [List.length_cons]; omega)]
      rfl
    · rw [enough_of_le (by omega)] at bound
      rw [outcomeAt_of_matched bound, outcomeAt, map_apply, skipped,
        enough_of_le (by rw [List.length_cons]; omega)]
      simp [listEnd]
  · exact absurd found (repeated_zero_ne_noMatch _ _ _)
  · rw [found] at bound
    rw [outcomeAt_of_errored bound, outcomeAt, found]
    rfl

variable (item separator)

/-- A list finds what the plain list finds, if there is enough of it, and ends behind the
separator that may stand behind it. -/
theorem outcomeAt_separated (form : ListForm) (c : Cursor ι) :
    outcomeAt (item.separated separator form) c =
      (outcomeAt (item.separated separator { leading := form.leading }) c).map fun o =>
        o.andThen fun as d => enough form.atLeast as (listEnd form.trailing separator as d) := by
  have steps (form : ListForm) : outcomeAt (item.separated separator form) c =
      outcomeAt ((skipIf form.leading separator).andThen fun _ =>
        item.branch (following item separator form (tooShort form.atLeast))
          (noItems form.atLeast c)) c := rfl
  rw [steps, steps]
  rcases before : skipIf form.leading separator c with
    _ | ⟨⟨_, start⟩ | _ | ⟨e, s⟩, log⟩
  · rw [andThen, outcomeAt_of_none before, andThen, outcomeAt_of_none before]
    rfl
  · rw [andThen, outcomeAt_of_matched before, andThen, outcomeAt_of_matched before]
    rcases found : item start with _ | ⟨⟨first, rest⟩ | _ | ⟨e, s⟩, log'⟩
    · rw [outcomeAt_of_none found, outcomeAt_of_none found]
      rfl
    · rw [outcomeAt_of_matched found, outcomeAt_of_matched found, outcomeAt_following,
        outcomeAt_following]
      rcases outcomeAt ((separator.keepRight item).repeated 0) rest with
        _ | ⟨more, d⟩ | _ | ⟨e, s⟩ <;> rfl
    · rw [outcomeAt_of_noMatch found, outcomeAt_of_noMatch found]
      by_cases free : form.atLeast = 0
      · simp [outcomeAt, noItems, free, Outcome.andThen, enough, listEnd]
      · have asked : 0 < form.atLeast := by omega
        simp [outcomeAt, noItems, free, Outcome.andThen, enough, asked]
    · rw [outcomeAt_of_errored found, outcomeAt_of_errored found]
      rfl
  · exact absurd before (skipIf_ne_noMatch _ _ _ _)
  · rw [andThen, outcomeAt_of_errored before, andThen, outcomeAt_of_errored before]
    rfl

section Replies

variable {items : Array (Spanned ι)}

theorem totalAmong_ofOutcome {f : Cursor ι → Outcome ι α ε}
    (stays : ∀ c, c.items = items → ∀ a d, f c = .matched a d → d.items = items) :
    (ofOutcome f).TotalAmong items where
  stays c there a d _ found := stays c there a d (Reply.mk.inj (Option.some.inj found)).1
  replies _ _ := ⟨_, rfl⟩

theorem totalAmong_succeed (a : α) : (succeed a : Parser ι α ε).TotalAmong items := by
  apply totalAmong_ofOutcome
  intro c there b d matched
  obtain ⟨-, rfl⟩ := Outcome.matched.inj matched
  exact there

theorem totalAmong_miss : (miss : Parser ι α ε).TotalAmong items :=
  totalAmong_ofOutcome fun _ _ _ _ matched => nomatch matched

theorem totalAmong_tooShort (n : Nat) : (tooShort n : Parser ι α ε).TotalAmong items where
  stays _ _ _ _ _ found := nomatch found
  replies _ _ := ⟨_, rfl⟩

theorem totalAmong_noItems (n : Nat) {start : Cursor ι} (there : start.items = items) :
    (noItems n start : Parser ι (List α) ε).TotalAmong items := by
  apply totalAmong_ofOutcome
  intro c _ as d matched
  split at matched
  · obtain ⟨-, rfl⟩ := Outcome.matched.inj matched
    exact there
  · exact nomatch matched

namespace TotalAmong

theorem branch {p : Parser ι α ε} {hit : α → Parser ι β ε} {other : Parser ι β ε}
    (hp : p.TotalAmong items) (hh : ∀ a, (hit a).TotalAmong items)
    (ho : other.TotalAmong items) : (p.branch hit other).TotalAmong items where
  stays c there b d log found := by
    obtain ⟨a, rest, l, m, first, second, -⟩ | ⟨l, m, -, second, -⟩ := matched_of_branch found
    · exact (hh a).stays rest (hp.stays c there a rest l first) b d m second
    · exact ho.stays c there b d m second
  replies c there := by
    obtain ⟨⟨⟨a, rest⟩ | _ | ⟨e, s⟩, log⟩, found⟩ := hp.replies c there
    · obtain ⟨r, second⟩ := (hh a).replies rest (hp.stays c there a rest log found)
      exact ⟨r.after log, by rw [branch_matched found, second]; rfl⟩
    · obtain ⟨r, second⟩ := ho.replies c there
      exact ⟨r.after log, by rw [branch_noMatch found, second]; rfl⟩
    · exact ⟨_, branch_errored found⟩

theorem andThen {p : Parser ι α ε} {next : α → Parser ι β ε} (hp : p.TotalAmong items)
    (hn : ∀ a, (next a).TotalAmong items) : (p.andThen next).TotalAmong items :=
  hp.branch hn totalAmong_miss

/-- Where the body always replies, every repetition of it has a course, and ends. -/
theorem repeated {body : Parser ι α ε} (hb : body.TotalAmong items) (n : Nat) :
    (body.repeated n).TotalAmong items where
  stays c there as d log found := by
    obtain ⟨k, course⟩ := exists_course hb.stays hb.replies there
    rw [repeated_of_course course n] at found
    have outcome : (k.reply n).outcome = .matched as d := by rw [Option.some.inj found]
    obtain ⟨-, -, -, rfl⟩ := (k.reply_matched_iff n as d).mp outcome
    exact course.chain.items_eq hb.stays there
  replies c there := by
    obtain ⟨k, course⟩ := exists_course hb.stays hb.replies there
    exact ⟨_, repeated_of_course course n⟩

theorem skipIf {p : Parser ι σ ε} (hp : p.TotalAmong items) (allowed : Bool) :
    (Parser.skipIf allowed p).TotalAmong items := by
  cases allowed with
  | false => exact totalAmong_succeed ()
  | true => exact hp.branch (fun _ => totalAmong_succeed ()) (totalAmong_succeed ())

theorem separated {item : Parser ι α ε} {separator : Parser ι σ ε} (hi : item.TotalAmong items)
    (hs : separator.TotalAmong items) (form : ListForm) :
    (item.separated separator form).TotalAmong items := by
  have pairs := (hs.andThen fun _ => hi).repeated (form.atLeast - 1)
  have tail (first : α) :
      (following item separator form (tooShort form.atLeast) first).TotalAmong items :=
    pairs.branch (fun _ => (hs.skipIf form.trailing).andThen fun _ => totalAmong_succeed _)
      (totalAmong_tooShort _)
  have list {start : Cursor ι} (there : start.items = items) :=
    (hs.skipIf form.leading).andThen fun _ => hi.branch tail (totalAmong_noItems form.atLeast there)
  exact ⟨fun c there => (list there).stays c there, fun c there => (list there).replies c there⟩

end TotalAmong

end Replies

/-- A minimum is exactly a test on the result without one, for repetitions and for lists. So a
larger minimum can only turn a match into a miss, and changes no value, cursor, error or span;
and a match holds as many values as were asked for. -/
theorem minimum_is_check (form : ListForm) (c : Cursor ι) :
    (∀ n, item.repeated n = (item.repeated 0).check fun as => decide (n ≤ as.length)) ∧
    (∀ n, outcomeAt (item.separated separator { form with atLeast := n }) c =
      outcomeAt ((item.separated separator { form with atLeast := 0 }).check fun as =>
        decide (n ≤ as.length)) c) ∧
    TightensWithMinimum (fun n => outcomeAt (item.repeated n) c) ∧
    TightensWithMinimum
      (fun n => outcomeAt (item.separated separator { form with atLeast := n }) c) ∧
    (item.TotalAmong c.items → separator.TotalAmong c.items → ∀ n,
      (∃ r, item.repeated n c = some r) ∧
        ∃ r, item.separated separator { form with atLeast := n } c = some r) := by
  have repetition (n : Nat) : outcomeAt (item.repeated n) c =
      (outcomeAt (item.repeated 0) c).map fun o => o.andThen (enough n) := by
    rw [repeated_eq_check, outcomeAt_check]
  have list (n : Nat) : outcomeAt (item.separated separator { form with atLeast := n }) c =
      (outcomeAt (item.separated separator { form with atLeast := 0 }) c).map fun o =>
        o.andThen (enough n) := by
    rw [outcomeAt_separated, outcomeAt_separated _ _ { form with atLeast := 0 }]
    rcases outcomeAt (item.separated separator { leading := form.leading }) c with
      _ | ⟨as, d⟩ | _ | ⟨e, s⟩ <;> rfl
  refine ⟨repeated_eq_check item, ?_, tightensWithMinimum_of_enough repetition,
    tightensWithMinimum_of_enough list, ?_⟩
  · intro n
    rw [list n, outcomeAt_check]
  · intro hi hs n
    exact ⟨(hi.repeated n).replies c rfl, (hi.separated hs _).replies c rfl⟩

/-- A separator that may stand behind the last item only moves the end of a list. The
outcome is that of the plain list, and a match with items ends behind one separator where
there is one at its end. The separator has replied there, and not with an error: where it
fails behind some pairs, these have failed with its error. -/
theorem trailing_moves_end (form : ListForm) (c : Cursor ι) :
    outcomeAt (item.separated separator { form with trailing := true }) c =
      (outcomeAt (item.separated separator { form with trailing := false }) c).map (fun o =>
        o.andThen fun as d => .matched as (if as = [] then d else separator.stepOver d)) ∧
    (∀ as d log,
      item.separated separator { form with trailing := false } c = some ⟨.matched as d, log⟩ →
        as ≠ [] → ∃ r, separator d = some r ∧ r.outcome.isErrored = false) ∧
    (∀ b as d, Rounds (separator.keepRight item) b as d →
      ∀ e s log, separator d = some ⟨.errored e s, log⟩ →
        ∀ n, outcomeAt ((separator.keepRight item).repeated n) b = some (.errored e s)) ∧
    (item.TotalAmong c.items → separator.TotalAmong c.items → ∀ trailing,
      ∃ r, item.separated separator { form with trailing } c = some r) := by
  refine ⟨?_, ?_, ?_, ?_⟩
  · rw [outcomeAt_separated, outcomeAt_separated _ _ { form with trailing := false }]
    rcases outcomeAt (item.separated separator { leading := form.leading }) c with
      _ | ⟨as, d⟩ | _ | ⟨e, s⟩
    · rfl
    · by_cases many : form.atLeast ≤ as.length
      · simp only [Option.map_some, Outcome.andThen, enough_of_le many, listEnd]
        by_cases empty : as = [] <;> simp [empty]
      · have few : as.length < form.atLeast := by omega
        simp [Outcome.andThen, enough_of_lt few]
    · rfl
    · rfl
  · intro as d log found nonempty
    exact separator_at_end rfl found nonempty
  · intro b as d rounds e s log failed n
    exact outcomeAt_of_rounds rounds (branch_errored failed) n
  · intro hi hs trailing
    exact (hi.separated hs _).replies c rfl

end Parser

end SpannedParsing
