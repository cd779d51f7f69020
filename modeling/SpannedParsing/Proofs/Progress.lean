import SpannedParsing.Proofs.Invariant

/-!
# Parsers that move on

A parser advances if every match of it ends at a later position. `consuming` reads off
a grammar that it advances: single items and stretches do, a repetition that asks for
something does whatever its body is, a sequence does with one part that does, and
alternatives do if all of them do. `strictlyAdvances_of_consuming` shows this sound, as
long as no part goes back.
-/
namespace SpannedParsing

variable {ρ ι α β ε : Type}

/-- A match does not go back. -/
def neverBack : ReplyProperty ι ε := fun c o _ =>
  ∀ d, o = .matched () d → c.position ≤ d.position

theorem neverBack_composes : (neverBack : ReplyProperty ι ε).Composes where
  stay c d h := by
    obtain ⟨-, rfl⟩ := Outcome.matched.inj h
    exact Nat.le_refl _
  advance c n d h := by
    obtain ⟨-, rfl⟩ := Outcome.matched.inj h
    exact c.position_le_advance n
  miss c d h := nomatch h
  short c n d h := nomatch h
  stall c d h := by
    obtain ⟨-, rfl⟩ := Outcome.matched.inj h
    exact Nat.le_refl _
  goOn first second e h := Nat.le_trans (first _ rfl) (second e h)
  retry _ second := second

theorem neverBack_unmet (e : ε) :
    Parser.Ensures (Parser.unmet e : Parser ι (Value ι) ε) neverBack := by
  intro c r found d matched
  obtain rfl := Option.some.inj found
  exact nomatch matched

namespace Parser

variable {c d : Cursor ι} {log : List Event}

theorem Ensures.position_le {p : Parser ι α ε} (back : p.Ensures neverBack) {a : α}
    (found : p c = some ⟨.matched a d, log⟩) : c.position ≤ d.position :=
  back c _ found d rfl

/-- A match comes from what goes on after a match, or from what is tried after a miss. -/
theorem matched_of_branch {p : Parser ι α ε} {hit : α → Parser ι β ε} {other : Parser ι β ε}
    {b : β} (h : p.branch hit other c = some ⟨.matched b d, log⟩) :
    (∃ a rest l m, p c = some ⟨.matched a rest, l⟩ ∧ hit a rest = some ⟨.matched b d, m⟩ ∧
      log = l ++ m) ∨
    ∃ l m, p c = some ⟨.noMatch, l⟩ ∧ other c = some ⟨.matched b d, m⟩ ∧ log = l ++ m := by
  rcases found : p c with _ | ⟨⟨a, rest⟩ | _ | ⟨e, s⟩, l⟩
  · simp [branch_none found] at h
  · rw [branch_matched found, Option.map_eq_some_iff] at h
    obtain ⟨⟨o, m⟩, after, same⟩ := h
    obtain ⟨rfl, rfl⟩ := Reply.mk.inj same
    exact .inl ⟨a, rest, l, m, rfl, after, rfl⟩
  · rw [branch_noMatch found, Option.map_eq_some_iff] at h
    obtain ⟨⟨o, m⟩, after, same⟩ := h
    obtain ⟨rfl, rfl⟩ := Reply.mk.inj same
    exact .inr ⟨l, m, rfl, after, rfl⟩
  · simp [branch_errored found] at h

theorem matched_of_andThen {p : Parser ι α ε} {next : α → Parser ι β ε} {b : β}
    (h : p.andThen next c = some ⟨.matched b d, log⟩) :
    ∃ a rest l m, p c = some ⟨.matched a rest, l⟩ ∧ next a rest = some ⟨.matched b d, m⟩ ∧
      log = l ++ m := by
  obtain found | ⟨l, m, -, missed, -⟩ := matched_of_branch h
  · exact found
  · exact nomatch missed

theorem matched_of_orElse {p q : Parser ι α ε} {a : α}
    (h : p.orElse q c = some ⟨.matched a d, log⟩) :
    p c = some ⟨.matched a d, log⟩ ∨
      ∃ l m, p c = some ⟨.noMatch, l⟩ ∧ q c = some ⟨.matched a d, m⟩ ∧ log = l ++ m := by
  obtain ⟨b, rest, l, m, found, stayed, rfl⟩ | other := matched_of_branch h
  · obtain ⟨⟨rfl, rfl⟩, rfl⟩ : (b = a ∧ rest = d) ∧ m = [] := by simpa using stayed
    exact .inl (by simpa using found)
  · exact .inr other

theorem matched_of_map {f : α → β} {p : Parser ι α ε} {b : β}
    (h : p.map f c = some ⟨.matched b d, log⟩) :
    ∃ a, p c = some ⟨.matched a d, log⟩ ∧ b = f a := by
  obtain ⟨a, rest, l, m, found, stayed, rfl⟩ := matched_of_andThen h
  obtain ⟨⟨rfl, rfl⟩, rfl⟩ : (b = f a ∧ d = rest) ∧ m = [] := by
    simpa [eq_comm] using stayed
  exact ⟨a, by simpa using found, rfl⟩

/-- The rounds of a repetition: matches in a row, each of which moves on. -/
inductive Rounds (body : Parser ι α ε) : Cursor ι → List α → Cursor ι → Prop
  | done (c : Cursor ι) : Rounds body c [] c
  | round {c rest d : Cursor ι} {a : α} {as : List α} {log : List Event}
      (found : body c = some ⟨.matched a rest, log⟩) (moved : c.position < rest.position)
      (more : Rounds body rest as d) : Rounds body c (a :: as) d

theorem Rounds.position_le {body : Parser ι α ε} {as : List α} (h : Rounds body c as d) :
    c.position ≤ d.position := by
  induction h with
  | done => exact Nat.le_refl _
  | round _ moved _ ih => omega

theorem rounds_of_enough {body : Parser ι α ε} {n : Nat} {as : List α}
    (h : (enough n [] c : Outcome ι (List α) ε) = .matched as d) :
    Rounds body c as d ∧ n ≤ as.length := by
  unfold enough at h
  split at h
  · exact nomatch h
  · obtain ⟨rfl, rfl⟩ := Outcome.matched.inj h
    exact ⟨.done c, by omega⟩

/-- A repetition matches with the values of its rounds, of which there are enough. -/
theorem rounds_of_repeated {body : Parser ι α ε} {n : Nat} {as : List α}
    (h : body.repeated n c = some ⟨.matched as d, log⟩) :
    Rounds body c as d ∧ n ≤ as.length := by
  induction c using Cursor.inductAhead generalizing n as log with
  | ind c ih =>
    rw [repeated_apply] at h
    rcases found : body c with _ | ⟨⟨a, rest⟩ | _ | ⟨e, s⟩, events⟩
    · simp [found] at h
    · simp only [found] at h
      by_cases moved : c.position < rest.position
      · rw [if_pos moved, Option.map_eq_some_iff] at h
        obtain ⟨⟨o, more⟩, tail, same⟩ := h
        obtain ⟨outcome, -⟩ := Reply.mk.inj same
        rcases o with ⟨bs, last⟩ | _ | ⟨e, s⟩
        · obtain ⟨rfl, rfl⟩ := Outcome.matched.inj outcome
          obtain ⟨rounds, enough⟩ := ih rest moved tail
          refine ⟨.round found moved rounds, ?_⟩
          rw [List.length_cons]
          omega
        · exact nomatch outcome
        · exact nomatch outcome
      · rw [if_neg moved] at h
        exact rounds_of_enough (Reply.mk.inj (Option.some.inj h)).1
    · simp only [found] at h
      exact rounds_of_enough (Reply.mk.inj (Option.some.inj h)).1
    · simp [found] at h

/-- Every match of the parser moves on. -/
def Advances (p : Parser ι α ε) : Prop :=
  ∀ c a d log, p c = some ⟨.matched a d, log⟩ → c.position < d.position

theorem advances_satisfy (test : ι → Bool) : (satisfy test : Parser ι ι ε).Advances := by
  intro c a d log found
  rw [satisfy_apply] at found
  rcases ahead : c.peek with _ | x
  · simp [ahead] at found
  · by_cases passed : test x.item
    · obtain ⟨⟨-, rfl⟩, -⟩ : (x.item = a ∧ c.next = d) ∧ log = [] := by
        simpa [ahead, passed] using found
      exact Cursor.position_lt_next ahead
    · simp [ahead, passed] at found

/-- A stretch that matches is not empty and lies ahead. -/
theorem advances_sequence [DecidableEq ι] (xs : List ι) :
    (sequence xs : Parser ι (List ι) ε).Advances := by
  intro c a d log found
  unfold sequence at found
  rw [ofOutcome_apply] at found
  by_cases starts : c.startsWith xs
  · obtain ⟨⟨-, rfl⟩, -⟩ : (xs = a ∧ c.advance xs.length = d) ∧ log = [] := by
      simpa [starts] using found
    cases xs with
    | nil => simp at starts
    | cons x xs =>
      rw [Cursor.startsWith_cons, Cursor.agrees_iff] at starts
      have fits := starts.length_le
      rw [List.length_map, Cursor.length_remaining, List.length_cons] at fits
      have bound := c.position_le
      unfold Cursor.left at fits
      rw [Cursor.position_advance, List.length_cons]
      omega
  · simp [starts] at found

namespace Advances

theorem map (f : α → β) {p : Parser ι α ε} (hp : p.Advances) : (p.map f).Advances := by
  intro c b d log found
  obtain ⟨a, matched, -⟩ := matched_of_map found
  exact hp c a d log matched

theorem orElse {p q : Parser ι α ε} (hp : p.Advances) (hq : q.Advances) :
    (p.orElse q).Advances := by
  intro c a d log found
  obtain matched | ⟨l, m, -, matched, -⟩ := matched_of_orElse found
  · exact hp c a d log matched
  · exact hq c a d m matched

theorem firstOf {ps : List (Parser ι α ε)} (h : ∀ p ∈ ps, p.Advances) :
    (Parser.firstOf ps).Advances := by
  induction ps with
  | nil => exact fun c a d log found => nomatch found
  | cons p ps ih =>
    have others := ih fun q mem => h q (List.mem_cons_of_mem p mem)
    exact (h p List.mem_cons_self).orElse others

/-- A sequence advances with its first part, if the second one does not go back. -/
theorem andThen {p : Parser ι α ε} {next : α → Parser ι β ε} (hp : p.Advances)
    (back : ∀ a, (next a).Ensures neverBack) : (p.andThen next).Advances := by
  intro c b d log found
  obtain ⟨a, rest, l, m, first, second, -⟩ := matched_of_andThen found
  have moved := hp c a rest l first
  have stays := (back a).position_le second
  omega

/-- A sequence advances with its second part, if the first one does not go back. -/
theorem after {p : Parser ι α ε} {next : α → Parser ι β ε} (back : p.Ensures neverBack)
    (hn : ∀ a, (next a).Advances) : (p.andThen next).Advances := by
  intro c b d log found
  obtain ⟨a, rest, l, m, first, second, -⟩ := matched_of_andThen found
  have stays := back.position_le first
  have moved := hn a rest b d m second
  omega

theorem require (e : ε) {p : Parser ι α ε} (hp : p.Advances) : (p.require e).Advances := by
  refine hp.orElse ?_
  intro c a d log found
  exact nomatch found

theorem check (test : α → Bool) {p : Parser ι α ε} (hp : p.Advances) :
    (p.check test).Advances := by
  apply hp.andThen
  intro a
  split
  · exact ensures_succeed neverBack_composes a
  · exact ensures_miss neverBack_composes

theorem spanned {p : Parser ι α ε} (hp : p.Advances) : p.spanned.Advances := by
  intro c a d log found
  obtain ⟨b, rest, l, m, matched, stayed, -⟩ := matched_of_andThen found
  obtain ⟨⟨-, rfl⟩, -⟩ : (_ ∧ rest = d) ∧ m = [] := by simpa using stayed
  exact hp c b rest l matched

end Advances

/-- A repetition that asks for something advances, whatever its body does. -/
theorem advances_repeated (body : Parser ι α ε) {n : Nat} (pos : 0 < n) :
    (body.repeated n).Advances := by
  intro c as d log found
  obtain ⟨rounds, enough⟩ := rounds_of_repeated found
  cases rounds with
  | done => simp only [List.length_nil] at enough; omega
  | round _ moved more =>
    have stays := more.position_le
    omega

end Parser

namespace Grammar

mutual

/-- Whether a grammar is seen to advance. -/
def consuming : Grammar ρ ι ε → Bool
  | .just _ => true
  | .oneOf _ => true
  | .satisfy _ => true
  | .sequence _ => true
  | .both _ p q => consuming p || consuming q
  | .orElse p q => consuming p && consuming q
  | .firstOf ps => allConsuming ps
  | .require p _ => consuming p
  | .spanned p => consuming p
  | .map _ p => consuming p
  | .check p _ => consuming p
  | .repeated _ atLeast => decide (0 < atLeast)
  | .finish => false
  | .answer _ => false
  | .maybe _ _ => false
  | .separated _ _ _ => false
  | .withContext _ _ => false
  | .call _ => false

def allConsuming : List (Grammar ρ ι ε) → Bool
  | [] => true
  | p :: ps => consuming p && allConsuming ps

end

theorem consuming_of_mem {ps : List (Grammar ρ ι ε)} (all : allConsuming ps = true)
    {p : Grammar ρ ι ε} (mem : p ∈ ps) : p.consuming = true := by
  induction ps with
  | nil => exact nomatch mem
  | cons q qs ih =>
    rw [allConsuming, Bool.and_eq_true] at all
    rcases List.mem_cons.mp mem with rfl | mem
    · exact all.1
    · exact ih all.2 mem

variable [DecidableEq ι] {table : ρ → Grammar ρ ι ε} {family : Grammar ρ ι ε → Prop}

/-- Every match of the grammar moves the cursor forward. -/
def StrictlyAdvances (table : ρ → Grammar ρ ι ε) (g : Grammar ρ ι ε) : Prop :=
  ∀ depth, (run table depth g).Advances

/-- A grammar that is seen to advance does so, where nothing goes back. -/
theorem strictlyAdvances_of_consuming (own : OwnReplies neverBack table family)
    (h : Grammar ρ ι ε) (member : family h) (seen : h.consuming = true) :
    StrictlyAdvances table h := by
  intro depth
  have back {p : Grammar ρ ι ε} (inside : family p) : (run table depth p).Ensures neverBack :=
    ensures_run neverBack_composes own inside depth
  -- calls are never seen to advance, so no rule is entered and the depth stays as it is
  unfold run at back ⊢
  induction h using Grammar.induct with
  | just x => exact (Parser.advances_satisfy _).map _
  | oneOf xs => exact (Parser.advances_satisfy _).map _
  | satisfy test => exact (Parser.advances_satisfy test).map _
  | sequence xs => exact (Parser.advances_sequence xs).map _
  | both joining p q hp hq =>
    have first := own.parts _ p member (Or.inl rfl)
    have second := own.parts _ q member (Or.inr rfl)
    rw [consuming, Bool.or_eq_true] at seen
    rcases seen with seen | seen
    · exact (hp first seen).andThen fun a => (back second).map neverBack_composes _
    · exact .after (back first) fun a => (hq second seen).map _
  | orElse p q hp hq =>
    rw [consuming, Bool.and_eq_true] at seen
    have first := hp (own.parts _ p member (Or.inl rfl)) seen.1
    exact first.orElse (hq (own.parts _ q member (Or.inr rfl)) seen.2)
  | firstOf ps hps =>
    rw [denote_firstOf]
    apply Parser.Advances.firstOf
    intro p mem
    obtain ⟨k, inside, rfl⟩ := List.mem_map.mp mem
    exact hps k inside (own.parts _ k member inside) (consuming_of_mem seen inside)
  | require p e hp => exact (hp (own.parts _ p member rfl) seen).require e
  | spanned p hp => exact (hp (own.parts _ p member rfl) seen).spanned.map _
  | map f p hp => exact (hp (own.parts _ p member rfl) seen).map f
  | check p test hp => exact (hp (own.parts _ p member rfl) seen).check test
  | repeated p n hp => exact (Parser.advances_repeated _ (of_decide_eq_true seen)).map _
  | finish | answer | maybe | separated | withContext | call => exact nomatch seen

end Grammar

end SpannedParsing
