import SpannedParsing.Proofs.Reading

/-!
# Lists of single items

A list whose items and separators are single items accepts exactly its list grammar,
for every setting: `Listed` says what such a list is, with one separator in front where
that is allowed, and how it is told from what follows it. An item may itself be a
separator.

The list is as long as possible: what follows it does not begin with a separator and
one more item. So every list that begins somewhere has such a decomposition
(`exists_listed`), and where there is none, no first item is found.
-/
namespace SpannedParsing

variable {ι ε : Type}

/-- Items with a separator in front of each of them. -/
def withSeparators (c : ι) (xs : List ι) : List ι := xs.flatMap fun x => [c, x]

theorem intersperse_cons (c x : ι) (xs : List ι) :
    (x :: xs).intersperse c = x :: withSeparators c xs := by
  induction xs generalizing x with
  | nil => rfl
  | cons y ys ih =>
    rw [List.intersperse_cons_cons, ih y]
    rfl

/-- No separator with one more item of the list stands in front. -/
def Ended (test : ι → Bool) (c : ι) (tail : List ι) : Prop :=
  ∀ y rest, tail = c :: y :: rest → test y = false

/-- The items are a list of at least one item that passes the test, with separators
between them, a separator in front where that is allowed, and a tail behind them with
which the list does not go on. A separator in front is never taken for an item. -/
structure Listed (test : ι → Bool) (c : ι) (leading : Bool) (items lead xs tail : List ι) :
    Prop where
  whole : items = lead ++ xs.intersperse c ++ tail
  nonempty : xs ≠ []
  passed : ∀ x ∈ xs, test x = true
  front : lead = [] ∨ leading = true ∧ lead = [c]
  first : leading = true → lead = [] → xs.head? ≠ some c
  ended : Ended test c tail

/-- A list that is written with separators between its items, and nothing behind it. -/
theorem listed_of_intersperse {test : ι → Bool} {c : ι} {leading : Bool} {xs : List ι}
    (nonempty : xs ≠ []) (passed : ∀ x ∈ xs, test x = true)
    (first : leading = true → xs.head? ≠ some c) :
    Listed test c leading (xs.intersperse c) [] xs [] where
  whole := by simp
  nonempty := nonempty
  passed := passed
  front := .inl rfl
  first allowed _ := first allowed
  ended y rest same := nomatch same

/-- Behind the first item, a list goes on for as long as it can. -/
theorem exists_separated (test : ι → Bool) (c : ι) (items : List ι) :
    ∃ xs tail, items = withSeparators c xs ++ tail ∧ (∀ x ∈ xs, test x = true) ∧
      Ended test c tail := by
  induction count : items.length using Nat.strongRecOn generalizing items with
  | ind n ih =>
    by_cases ended : Ended test c items
    · exact ⟨[], items, rfl, by simp, ended⟩
    · unfold Ended at ended
      push Not at ended
      obtain ⟨y, rest, rfl, passed⟩ := ended
      have shorter : rest.length < n := by
        rw [← count]
        simp only [List.length_cons]
        omega
      obtain ⟨xs, tail, rfl, all, ended⟩ := ih rest.length shorter rest rfl
      refine ⟨y :: xs, tail, rfl, ?_, ended⟩
      intro x mem
      rcases List.mem_cons.mp mem with rfl | mem
      · simpa using passed
      · exact all x mem

theorem Cursor.head?_ahead (e : Cursor ι) : e.ahead.head? = e.peek.map Spanned.item := by
  rw [ahead, List.head?_map, ← peek_eq_head?]

/-- A cursor in front of an item reads it. -/
theorem Cursor.Reads.of_head? {e : Cursor ι} {x : ι} (head : e.ahead.head? = some x) :
    e.Reads [x] e.next := by
  rw [head?_ahead, Option.map_eq_some_iff] at head
  obtain ⟨found, peek, rfl⟩ := head
  exact .next peek

namespace Parser

variable [DecidableEq ι] {test : ι → Bool} {c : ι} {e d : Cursor ι}

/-- The cursor behind the next item, where that is the separator and may be stepped
over. -/
def skipped (allowed : Bool) (c : ι) (e : Cursor ι) : Cursor ι :=
  if allowed = true ∧ e.ahead.head? = some c then e.next else e

/-- A separator is found exactly where it is the next item. -/
theorem just_apply (c : ι) (e : Cursor ι) :
    (just c : Parser ι ι ε) e =
      some ⟨if e.ahead.head? = some c then .matched c e.next else .noMatch, []⟩ := by
  rw [just, satisfy_apply, Cursor.head?_ahead]
  rcases e.peek with _ | found
  · rfl
  · by_cases same : found.item = c
    · simp [same]
    · simp [same]

theorem skipIf_just (allowed : Bool) (c : ι) (e : Cursor ι) :
    skipIf allowed (just c : Parser ι ι ε) e = some ⟨.matched () (skipped allowed c e), []⟩ := by
  cases allowed with
  | false => simp [skipped]
  | true =>
    by_cases next : e.ahead.head? = some c
    · simp [skipIf, branch, just_apply, skipped, next, Reply.after]
    · simp [skipIf, branch, just_apply, skipped, next, Reply.after]

theorem pair_of_reads {x : ι} (reads : e.Reads [c, x] d) (passed : test x = true) :
    (just c : Parser ι ι ε).keepRight (satisfy test) e = some ⟨.matched x d, []⟩ := by
  obtain ⟨s, peek, same, rest⟩ := reads.uncons
  obtain ⟨s', peek', same', rest'⟩ := rest.uncons
  obtain rfl : e.next.next = d := (Cursor.Reads.refl _).unique rest'
  have separator : (just c : Parser ι ι ε) e = some ⟨.matched c e.next, []⟩ := by
    rw [just_apply, Cursor.head?_ahead, peek]
    simp [same]
  subst same'
  rw [keepRight, andThen_of_matched separator, satisfy_of_passed peek' passed]
  rfl

theorem pair_of_ended (ended : Ended test c e.ahead) :
    (just c : Parser ι ι ε).keepRight (satisfy test) e = some ⟨.noMatch, []⟩ := by
  by_cases next : e.ahead.head? = some c
  · have separator : (just c : Parser ι ι ε) e = some ⟨.matched c e.next, []⟩ := by
      simp [just_apply, next]
    have missed : (satisfy test : Parser ι ι ε) e.next = some ⟨.noMatch, []⟩ := by
      apply satisfy_of_failed
      intro s peek
      apply ended s.item e.next.next.ahead
      rw [(Cursor.Reads.of_head? next).ahead, Cursor.ahead_of_peek peek]
      rfl
    rw [keepRight, andThen_of_matched separator, missed]
    rfl
  · have missed : (just c : Parser ι ι ε) e = some ⟨.noMatch, []⟩ := by
      simp [just_apply, next]
    exact andThen_of_noMatch missed

/-- Pairs are repeated up to the place where the list ends. -/
theorem repeated_of_pairs {xs : List ι} (passed : ∀ x ∈ xs, test x = true)
    (reads : e.Reads (withSeparators c xs) d) (ended : Ended test c d.ahead) (n : Nat) :
    ((just c : Parser ι ι ε).keepRight (satisfy test)).repeated n e =
      some ⟨enough n xs d, []⟩ := by
  have round : ∀ x ∈ xs, ∀ g f, g.Reads [c, x] f →
      (just c : Parser ι ι ε).keepRight (satisfy test) g = some ⟨.matched x f, []⟩ :=
    fun x mem g f pair => pair_of_reads pair (passed x mem)
  have found := repeated_of_reads round (fun x _ => List.cons_ne_nil c [x]) reads
    (pair_of_ended ended) n
  rwa [List.map_id'] at found

variable (form : ListForm) {s : Cursor ι}

/-- Where no first item stands behind the separator that may lead, the list is empty. -/
theorem separated_of_missing
    (missing : ∀ x, (skipped form.leading c s).ahead.head? = some x → test x = false) :
    (satisfy test : Parser ι ι ε).separated (just c) form s =
      some ⟨if form.atLeast = 0 then .matched [] s else .noMatch, []⟩ := by
  have missed : (satisfy test : Parser ι ι ε) (skipped form.leading c s) =
      some ⟨.noMatch, []⟩ := by
    apply satisfy_of_failed
    intro x peek
    apply missing
    rw [Cursor.head?_ahead, peek]
    rfl
  rw [separated_apply, andThen_of_matched (skipIf_just _ c s), branch_noMatch missed]
  rfl

/-- A list that stands behind the separator that may lead is found, if it is long
enough. -/
theorem separated_of_items {x : ι} {xs : List ι} (passed : ∀ y ∈ x :: xs, test y = true)
    (reads : (skipped form.leading c s).Reads (x :: withSeparators c xs) d)
    (ended : Ended test c d.ahead) :
    ∃ log, (satisfy test : Parser ι ι ε).separated (just c) form s =
      some ⟨if (x :: xs).length < form.atLeast then .noMatch
        else .matched (x :: xs) (skipped form.trailing c d), log⟩ := by
  obtain ⟨t, peek, same, rest⟩ := reads.uncons
  have first : (satisfy test : Parser ι ι ε) (skipped form.leading c s) =
      some ⟨.matched x (skipped form.leading c s).next, []⟩ := by
    subst same
    exact satisfy_of_passed peek (passed _ List.mem_cons_self)
  have more := repeated_of_pairs (ε := ε)
    (fun y mem => passed y (List.mem_cons_of_mem x mem)) rest ended (form.atLeast - 1)
  rw [separated_apply, andThen_of_matched (skipIf_just _ c s), branch_matched first]
  by_cases short : (x :: xs).length < form.atLeast
  · have few : xs.length < form.atLeast - 1 := by
      rw [List.length_cons] at short
      omega
    rw [enough, if_pos few] at more
    exact ⟨_, by simp only [following, pairs, branch_noMatch more, if_pos short]; rfl⟩
  · have many : ¬ xs.length < form.atLeast - 1 := by
      rw [List.length_cons] at short
      omega
    rw [enough, if_neg many] at more
    refine ⟨[], ?_⟩
    simp only [following, pairs, branch_matched more, map_apply, skipIf_just, if_neg short]
    rfl

theorem position_skipped (allowed : Bool) (c : ι) (e : Cursor ι) :
    (skipped allowed c e).position =
      e.position + if allowed = true ∧ e.ahead.head? = some c then 1 else 0 := by
  unfold skipped
  split
  · next there => exact (Cursor.Reads.of_head? there.2).position
  · rfl

theorem sameInput_skipped {allowed : Bool} (same : s.SameInput e) :
    s.SameInput (skipped allowed c e) := by
  unfold skipped
  split
  · exact ⟨same.items, same.source⟩
  · exact same

/-- In front of a list, the separator that is stepped over is the one that leads. -/
theorem reads_lead {lead xs tail : List ι} {leading : Bool}
    (listed : Listed test c leading s.ahead lead xs tail) :
    s.Reads lead (skipped leading c s) := by
  unfold skipped
  rcases listed.front with rfl | ⟨allowed, rfl⟩
  · have other : ¬ (leading = true ∧ s.ahead.head? = some c) := by
      rintro ⟨allowed, head⟩
      apply listed.first allowed rfl
      obtain ⟨x, ys, rfl⟩ := List.exists_cons_of_ne_nil listed.nonempty
      rw [listed.whole, intersperse_cons] at head
      simpa using head
    rw [if_neg other]
    exact .refl s
  · have head : s.ahead.head? = some c := by
      rw [listed.whole]
      rfl
    rw [if_pos ⟨allowed, head⟩]
    exact .of_head? head

/-- What a list with this decomposition is parsed to. -/
theorem separated_of_listed {lead xs tail : List ι}
    (listed : Listed test c form.leading s.ahead lead xs tail) :
    ∃ d log, s.Reads (lead ++ xs.intersperse c) d ∧ d.ahead = tail ∧
      (satisfy test : Parser ι ι ε).separated (just c) form s =
        some ⟨if xs.length < form.atLeast then .noMatch
          else .matched xs (skipped form.trailing c d), log⟩ := by
  have lead := reads_lead listed
  obtain ⟨x, ys, rfl⟩ := List.exists_cons_of_ne_nil listed.nonempty
  have rest : (skipped form.leading c s).ahead = (x :: ys).intersperse c ++ tail := by
    have whole := listed.whole
    rw [lead.ahead, List.append_assoc] at whole
    exact List.append_cancel_left whole
  obtain ⟨d, reads, rfl⟩ := Cursor.Reads.of_ahead rest
  have items := reads
  rw [intersperse_cons] at items
  obtain ⟨log, found⟩ := separated_of_items (ε := ε) form listed.passed items listed.ended
  exact ⟨d, log, lead.trans reads, rfl, found⟩

/-- A list begins wherever a first item stands behind the separator that may lead. -/
theorem exists_listed {leading : Bool} {x : ι}
    (head : (skipped leading c s).ahead.head? = some x) (passed : test x = true) :
    ∃ lead xs tail, Listed test c leading s.ahead lead xs tail := by
  obtain ⟨ys, tail, more, all, ended⟩ :=
    exists_separated test c (skipped leading c s).next.ahead
  have items : (skipped leading c s).ahead = (x :: ys).intersperse c ++ tail := by
    rw [(Cursor.Reads.of_head? head).ahead, more, intersperse_cons]
    rfl
  have each : ∀ y ∈ x :: ys, test y = true := by
    intro y mem
    rcases List.mem_cons.mp mem with rfl | mem
    · exact passed
    · exact all y mem
  by_cases there : leading = true ∧ s.ahead.head? = some c
  · rw [skipped, if_pos there] at items
    refine ⟨[c], x :: ys, tail, ?_, by simp, each, .inr ⟨there.1, rfl⟩, by simp, ended⟩
    rw [(Cursor.Reads.of_head? there.2).ahead, items, List.append_assoc]
  · rw [skipped, if_neg there] at head items
    refine ⟨[], x :: ys, tail, by simpa using items, by simp, each, .inl rfl, ?_, ended⟩
    intro allowed _ same
    apply there
    refine ⟨allowed, ?_⟩
    rw [head, ← same]
    rfl

theorem separated_of_unlisted
    (unlisted : ¬ ∃ lead xs tail, Listed test c form.leading s.ahead lead xs tail) :
    (satisfy test : Parser ι ι ε).separated (just c) form s =
      some ⟨if form.atLeast = 0 then .matched [] s else .noMatch, []⟩ := by
  apply separated_of_missing
  intro x head
  rcases passed : test x with _ | _
  · rfl
  · exact absurd (exists_listed head passed) unlisted

/-- A list of single items replies at every cursor, and never with an error. -/
theorem separated_items_replies (test : ι → Bool) (c : ι) (s : Cursor ι) :
    ∃ o log, (satisfy test : Parser ι ι ε).separated (just c) form s = some ⟨o, log⟩ ∧
      ∀ e span, o ≠ .errored e span := by
  by_cases listed : ∃ lead xs tail, Listed test c form.leading s.ahead lead xs tail
  · obtain ⟨lead, xs, tail, listed⟩ := listed
    obtain ⟨d, log, -, -, found⟩ := separated_of_listed (ε := ε) form listed
    refine ⟨_, log, found, ?_⟩
    intro e span
    split <;> exact nofun
  · refine ⟨_, [], separated_of_unlisted form listed, ?_⟩
    intro e span
    split <;> exact nofun

/-- A list that is written with separators between its items is given back. -/
theorem separated_of_intersperse {xs : List ι} (written : s.ahead = xs.intersperse c)
    (many : max form.atLeast 1 ≤ xs.length) (passed : ∀ x ∈ xs, test x = true)
    (first : form.leading = true → xs.head? ≠ some c) :
    ∃ d log, (satisfy test : Parser ι ι ε).separated (just c) form s =
      some ⟨.matched xs d, log⟩ ∧ d.atEnd = true := by
  have nonempty : xs ≠ [] := by
    rintro rfl
    rw [List.length_nil] at many
    omega
  have listed := listed_of_intersperse nonempty passed first
  rw [← written] at listed
  obtain ⟨d, log, reads, rest, found⟩ := separated_of_listed (ε := ε) form listed
  have same : skipped form.trailing c d = d := by simp [skipped, rest]
  rw [if_neg (by omega), same] at found
  refine ⟨d, log, found, ?_⟩
  rw [Cursor.atEnd_iff_left, ← Cursor.length_ahead, rest]
  rfl

/-- A list of single items with single separators is parsed exactly, in every form and at every
cursor. A list ahead is found, with the cursor behind it and behind a separator that may trail,
or missed if it is too short; where there is none, the list is empty and consumes nothing, or
is missed. It never fails, and what is written with separators is given back. -/
theorem separated_items_exact (test : ι → Bool) (c : ι) (form : ListForm) (s : Cursor ι) :
    ∃ o log, (satisfy test : Parser ι ι ε).separated (just c) form s = some ⟨o, log⟩ ∧
      (∀ lead xs tail, Listed test c form.leading s.ahead lead xs tail →
        (form.atLeast ≤ xs.length → ∃ d, o = .matched xs d ∧ s.SameInput d ∧
          d.position = s.position + (lead.length + (2 * xs.length - 1)) +
            if form.trailing = true ∧ tail.head? = some c then 1 else 0) ∧
        (xs.length < form.atLeast → o = .noMatch)) ∧
      ((¬ ∃ lead xs tail, Listed test c form.leading s.ahead lead xs tail) →
        (form.atLeast = 0 → o = .matched [] s) ∧ (0 < form.atLeast → o = .noMatch)) ∧
      (∀ e span, o ≠ .errored e span) ∧
      ∀ xs, s.ahead = xs.intersperse c → max form.atLeast 1 ≤ xs.length →
        (∀ x ∈ xs, test x = true) → (form.leading = true → xs.head? ≠ some c) →
        ∃ d, o = .matched xs d ∧ d.atEnd = true := by
  obtain ⟨o, log, found, noError⟩ := separated_items_replies (ε := ε) form test c s
  have outcome {o' : Outcome ι (List ι) ε} {log' : List Event}
      (found' : (satisfy test).separated (just c) form s = some ⟨o', log'⟩) : o = o' :=
    (Reply.mk.inj (Option.some.inj (found.symm.trans found'))).1
  refine ⟨o, log, found, ?_, ?_, noError, ?_⟩
  · intro lead xs tail listed
    obtain ⟨d, log', reads, rfl, found'⟩ := separated_of_listed (ε := ε) form listed
    rw [outcome found']
    constructor
    · intro enough
      refine ⟨_, if_neg (by omega), sameInput_skipped reads.toSameInput, ?_⟩
      rw [position_skipped, reads.position, List.length_append, List.length_intersperse]
    · exact fun short => if_pos short
  · intro unlisted
    rw [outcome (separated_of_unlisted form unlisted)]
    constructor
    · exact fun free => if_pos free
    · exact fun asked => if_neg (by omega)
  · intro xs written many passed first
    obtain ⟨d, log', found', ended⟩ := separated_of_intersperse (ε := ε) form written many passed
      first
    exact ⟨d, outcome found', ended⟩

end Parser

end SpannedParsing
