import SpannedParsing.Parser.Alternatives
import SpannedParsing.Parser.SeparatedList

/-!
# Lists with separators as a composition

`separated` runs a procedure of its own. `composed` says the same with the other
combinators: an optional separator, a first item in front of repeated pairs, and
an optional separator behind them; where no item is asked for, the empty list
stands in for a miss. Both give the same outcome everywhere. The procedure makes
one report more, `shortReport`, and only where the pairs after the first item
are too few.

Nothing is assumed of the item and the separator. They may match without
advancing, go back, fail, or give no reply.
-/
namespace SpannedParsing.Parser

variable {ι α β γ σ ε : Type}

/-- A parser with one optional separator in front of it, where that is allowed. -/
def opened (leading : Bool) (separator : Parser ι σ ε) (p : Parser ι α ε) : Parser ι α ε :=
  if leading then separator.optional.keepRight p else p

/-- A parser with one optional separator behind it, where that is allowed. -/
def closed (trailing : Bool) (separator : Parser ι σ ε) (p : Parser ι α ε) : Parser ι α ε :=
  if trailing then p.keepLeft separator.optional else p

def pairs (item : Parser ι α ε) (separator : Parser ι σ ε) (form : ListForm) :
    Parser ι (List α) ε :=
  (separator.keepRight item).repeated (form.atLeast - 1)

/-- A list with separators, written with the other combinators. -/
def composed (item : Parser ι α ε) (separator : Parser ι σ ε) (form : ListForm) :
    Parser ι (List α) ε :=
  let core := closed form.trailing separator
    (opened form.leading separator (item.cons (pairs item separator form)))
  if form.atLeast = 0 then core.orDefault [] else core

/-- What is reported after everything else: the cursor behind the first item,
where that item matches and the pairs after it miss. -/
def shortReport (item : Parser ι α ε) (separator : Parser ι σ ε) (form : ListForm)
    (cursor : Cursor ι) : List Event :=
  match opened form.leading separator item cursor with
  | some ⟨.matched _ rest, _⟩ =>
    match pairs item separator form rest with
    | some ⟨.noMatch, _⟩ => [.listTooShort rest.position form.atLeast]
    | _ => []
  | _ => []

/-- What follows the first item: the pairs and a separator behind them, or
`short` where the pairs are too few. -/
def following (item : Parser ι α ε) (separator : Parser ι σ ε) (form : ListForm)
    (short : Parser ι (List α) ε) (first : α) : Parser ι (List α) ε :=
  (pairs item separator form).branch
    (fun more => (skipIf form.trailing separator).map fun _ => first :: more) short

/-- The common shape of both sides; they differ in what follows too few pairs. -/
def skeleton (item : Parser ι α ε) (separator : Parser ι σ ε) (form : ListForm)
    (short : Parser ι (List α) ε) : Parser ι (List α) ε :=
  (skipIf form.leading separator).andThen fun _ =>
    item.andThen (following item separator form short)

theorem andThen_map (f : α → β) (p : Parser ι α ε) (next : β → Parser ι γ ε) :
    (p.map f).andThen next = p.andThen fun a => next (f a) := by
  unfold map
  rw [andThen_assoc]
  simp only [succeed_andThen]

theorem skipIf_true (p : Parser ι σ ε) : skipIf true p = p.optional.map fun _ => () := by
  funext c
  rcases h : p c with _ | ⟨_ | _ | _, log⟩ <;>
    simp [skipIf, optional, map_apply, branch, h, Reply.after]

theorem opened_eq (leading : Bool) (separator : Parser ι σ ε) (p : Parser ι α ε) :
    opened leading separator p = (skipIf leading separator).andThen fun _ => p := by
  cases leading with
  | false => simp [opened]
  | true => rw [skipIf_true, andThen_map]; rfl

theorem closed_eq (trailing : Bool) (separator : Parser ι σ ε) (p : Parser ι α ε) :
    closed trailing separator p =
      p.andThen fun a => (skipIf trailing separator).map fun _ => a := by
  cases trailing with
  | false => exact (map_id p).symm
  | true => simp only [skipIf_true, map_map]; rfl

/-- A separator that may be missing never makes a list miss. -/
theorem skipIf_ne_noMatch (allowed : Bool) (p : Parser ι σ ε) (c : Cursor ι)
    (log : List Event) : skipIf allowed p c ≠ some ⟨.noMatch, log⟩ := by
  cases allowed with
  | false => simp
  | true => rcases h : p c with _ | ⟨_ | _ | _, log⟩ <;> simp [skipIf, branch, h, Reply.after]

/-- A repetition that asks for nothing never misses. -/
theorem repeated_zero_ne_noMatch (body : Parser ι α ε) (c : Cursor ι) (log : List Event) :
    repeated body 0 c ≠ some ⟨.noMatch, log⟩ := by
  induction c using Cursor.inductAhead generalizing log with
  | ind c ih =>
    rw [repeated_apply]
    rcases body c with _ | ⟨⟨a, rest⟩ | _ | ⟨e, s⟩, events⟩
    · simp
    · by_cases moved : c.position < rest.position
      · have tail := ih rest moved
        rcases found : repeated body 0 rest with _ | ⟨⟨as, last⟩ | _ | ⟨e, s⟩, more⟩
        · simp [moved, found]
        · simp [moved, found]
        · exact absurd found (tail more)
        · simp [moved, found]
      · simp [moved, enough]
    · simp [enough]
    · simp

theorem composed_eq_skeleton (item : Parser ι α ε) (separator : Parser ι σ ε)
    (form : ListForm) :
    composed item separator form =
      if form.atLeast = 0 then (skeleton item separator form miss).orDefault []
      else skeleton item separator form miss := by
  have core : closed form.trailing separator
      (opened form.leading separator (item.cons (pairs item separator form))) =
        skeleton item separator form miss := by
    rw [closed_eq, opened_eq, andThen_assoc]
    unfold skeleton following cons
    simp only [andThen_assoc, andThen_map]
    rfl
  simp only [composed, core]

/-- Too few pairs end both sides at once, so the report stands at the end. -/
theorem skeleton_tooShort (item : Parser ι α ε) (separator : Parser ι σ ε)
    (form : ListForm) (c : Cursor ι) :
    skeleton item separator form (tooShort form.atLeast) c =
      (skeleton item separator form miss c).map fun r =>
        ⟨r.outcome, r.log ++ shortReport item separator form c⟩ := by
  unfold skeleton shortReport
  rw [opened_eq]
  rcases before : skipIf form.leading separator c with
    _ | ⟨⟨_, start⟩ | _ | ⟨e, s⟩, log⟩
  · simp [andThen, branch, before]
  · rcases first : item start with _ | ⟨⟨a, rest⟩ | _ | ⟨e, s⟩, log'⟩
    · simp [andThen, branch, before, first]
    · rcases more : pairs item separator form rest with
        _ | ⟨⟨as, last⟩ | _ | ⟨e, s⟩, log''⟩ <;>
        simp [following, andThen, branch, before, first, more, Reply.after, Function.comp_def]
    · simp [andThen, branch, before, first, Reply.after]
    · simp [andThen, branch, before, first, Reply.after]
  · exact absurd before (skipIf_ne_noMatch _ _ _ _)
  · simp [andThen, branch, before]

theorem shortReport_of_atLeast_eq_zero (item : Parser ι α ε) (separator : Parser ι σ ε)
    {form : ListForm} (h : form.atLeast = 0) (c : Cursor ι) :
    shortReport item separator form c = [] := by
  unfold shortReport
  rcases opened form.leading separator item c with _ | ⟨⟨a, rest⟩ | _ | ⟨e, s⟩, log⟩
  · rfl
  · rcases more : pairs item separator form rest with _ | ⟨⟨as, last⟩ | _ | ⟨e, s⟩, log'⟩
    · simp [more]
    · simp [more]
    · unfold pairs at more
      rw [h] at more
      exact absurd more (repeated_zero_ne_noMatch _ _ _)
    · simp [more]
  · rfl
  · rfl

/-- With an item found, a list that asks for nothing cannot miss any more. -/
theorem following_ne_noMatch (item : Parser ι α ε) (separator : Parser ι σ ε)
    {form : ListForm} (h : form.atLeast = 0) (short : Parser ι (List α) ε) (first : α)
    (c : Cursor ι) (log : List Event) :
    following item separator form short first c ≠ some ⟨.noMatch, log⟩ := by
  unfold following
  rcases more : pairs item separator form c with _ | ⟨⟨as, last⟩ | _ | ⟨e, s⟩, log'⟩
  · rw [branch_none more]
    simp
  · rw [branch_matched more, map_apply]
    rcases after : skipIf form.trailing separator last with _ | ⟨_ | _ | _, log''⟩
    · simp
    · simp [Reply.after]
    · exact absurd after (skipIf_ne_noMatch _ _ _ _)
    · simp [Reply.after]
  · unfold pairs at more
    rw [h] at more
    exact absurd more (repeated_zero_ne_noMatch _ _ _)
  · rw [branch_errored more]
    simp

theorem separated_apply (item : Parser ι α ε) (separator : Parser ι σ ε) (form : ListForm)
    (c : Cursor ι) :
    item.separated separator form c = (skipIf form.leading separator).andThen (fun _ =>
      item.branch (following item separator form (tooShort form.atLeast))
        (noItems form.atLeast c)) c := rfl

/-- The empty list stands in for a miss as a whole: a separator in front of no
item is given back. -/
theorem separated_eq_skeleton (item : Parser ι α ε) (separator : Parser ι σ ε)
    (form : ListForm) :
    item.separated separator form =
      if form.atLeast = 0 then
        (skeleton item separator form (tooShort form.atLeast)).orDefault []
      else skeleton item separator form (tooShort form.atLeast) := by
  funext c
  rw [separated_apply]
  by_cases free : form.atLeast = 0
  · rw [if_pos free]
    unfold skeleton orDefault orElse
    rcases before : skipIf form.leading separator c with
      _ | ⟨⟨_, start⟩ | _ | ⟨e, s⟩, log⟩
    · simp [andThen, branch, before]
    · rcases first : item start with _ | ⟨⟨a, rest⟩ | _ | ⟨e, s⟩, log'⟩
      · simp [andThen, branch, before, first]
      · have found := following_ne_noMatch item separator free (tooShort form.atLeast) a rest
        rcases tail : following item separator form (tooShort form.atLeast) a rest with
          _ | ⟨⟨as, last⟩ | _ | ⟨e, s⟩, log''⟩
        · simp [andThen, branch, before, first, tail]
        · simp [andThen, branch, before, first, tail, Reply.after]
        · exact absurd tail (found log'')
        · simp [andThen, branch, before, first, tail, Reply.after]
      · simp [andThen, branch, before, first, noItems, free, Reply.after]
      · simp [andThen, branch, before, first, Reply.after]
    · exact absurd before (skipIf_ne_noMatch _ _ _ _)
    · simp [andThen, branch, before]
  · rw [if_neg free]
    unfold skeleton noItems
    simp only [if_neg free]
    rfl

/-- A list with separators has the outcome of its composition, at every cursor
and for every form; its events are those of the composition, followed by the
report of a list that is too short after its first item. -/
theorem separated_eq_composed (item : Parser ι α ε) (separator : Parser ι σ ε)
    (form : ListForm) (c : Cursor ι) :
    item.separated separator form c = (composed item separator form c).map fun r =>
      ⟨r.outcome, r.log ++ shortReport item separator form c⟩ := by
  rw [separated_eq_skeleton, composed_eq_skeleton]
  by_cases free : form.atLeast = 0
  · have same : skeleton item separator form (tooShort form.atLeast) =
        skeleton item separator form miss := by
      funext d
      rw [skeleton_tooShort, shortReport_of_atLeast_eq_zero item separator free d]
      simp
    rw [if_pos free, if_pos free, same, shortReport_of_atLeast_eq_zero item separator free c]
    simp
  · rw [if_neg free, if_neg free, skeleton_tooShort]

end SpannedParsing.Parser
