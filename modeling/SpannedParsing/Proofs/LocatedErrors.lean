import SpannedParsing.Proofs.Invariant
import SpannedParsing.Proofs.TextPlaces

/-!
# Errors in a source text

An error is reported at the item in front of the cursor where it was raised, also if that
cursor was reached through many parts and rules. Over the characters of a source text,
this item is a character with an offset of its own, so the error can be shown: its line
exists, and it has this character at the column of the error. At the very beginning there
is no item in front of the cursor, and the first one takes its place. Only an empty text
has no character that an error could be shown at.
-/
namespace SpannedParsing

variable {ρ ι ε : Type}

/-- An error was raised with the cursor at the position `q`: a required part missed there,
which is the last thing reported, or no requirement was missed and it is one of the
grammar's own errors, for which `own` gives the positions. -/
inductive RaisedAt (own : Nat → ε → Prop) (q : Nat) (e : ε) (s : Span) : List Event → Prop
  | missed {before : List Event} (quiet : Quiet before) :
    RaisedAt own q e s (before ++ [.requirementMissed q s])
  | reported {log : List Event} (quiet : Quiet log) (cause : own q e) : RaisedAt own q e s log

theorem RaisedAt.after {own : Nat → ε → Prop} {q : Nat} {e : ε} {s : Span} {l m : List Event}
    (earlier : Quiet l) (h : RaisedAt own q e s m) : RaisedAt own q e s (l ++ m) := by
  cases h with
  | missed quiet =>
    rw [← List.append_assoc]
    exact .missed (earlier.append quiet)
  | reported quiet cause => exact .reported (earlier.append quiet) cause

/-- On the given items, matches stay on the items, and an error is reported in front of
the cursor where it was raised. -/
def reportsBehind (items : Array (Spanned ι)) (own : Nat → ε → Prop) : ReplyProperty ι ε :=
  fun c o log => c.items = items →
    (∀ d, o = .matched () d → d.items = items) ∧
    ∀ e s, o = .errored e s → ∃ d : Cursor ι,
      d.items = items ∧ s = d.lastSpan ∧ RaisedAt own d.position e s log

section

variable {items : Array (Spanned ι)} {own : Nat → ε → Prop} {c d : Cursor ι}

theorem reportsBehind_of_matched (same : d.items = c.items) (log : List Event) :
    reportsBehind items own c (.matched () d) log := by
  intro there
  refine ⟨?_, fun e s failed => nomatch failed⟩
  intro f matched
  obtain ⟨-, rfl⟩ := Outcome.matched.inj matched
  exact same.trans there

theorem reportsBehind_of_noMatch (c : Cursor ι) (log : List Event) :
    reportsBehind items own c .noMatch log := by
  intro _
  exact ⟨fun d matched => (nomatch matched), fun e s failed => nomatch failed⟩

theorem reportsBehind_after {o : Outcome ι Unit ε} {l m : List Event} (quiet : Quiet l)
    (same : d.items = c.items) (h : reportsBehind items own d o m) :
    reportsBehind items own c o (l ++ m) := by
  intro there
  obtain ⟨ends, raised⟩ := h (same.trans there)
  refine ⟨ends, ?_⟩
  intro e s failed
  obtain ⟨f, items, span, place⟩ := raised e s failed
  exact ⟨f, items, span, place.after quiet⟩

end

/-- The same, where no requirement was missed on the way to other replies than errors. -/
def quietlyBehind (items : Array (Spanned ι)) (own : Nat → ε → Prop) : ReplyProperty ι ε :=
  fun c o log => reportsBehind items own c o log ∧ (o.isErrored = false → Quiet log)

theorem quietlyBehind_composes (items : Array (Spanned ι)) (own : Nat → ε → Prop) :
    (quietlyBehind items own).Composes where
  stay c := ⟨reportsBehind_of_matched rfl [], quiet_composes.stay c⟩
  advance c n := ⟨reportsBehind_of_matched (c.items_advance n) [], quiet_composes.advance c n⟩
  miss c := ⟨reportsBehind_of_noMatch c [], quiet_composes.miss c⟩
  short c n := ⟨reportsBehind_of_noMatch c _, quiet_composes.short c n⟩
  stall c := ⟨reportsBehind_of_matched rfl _, quiet_composes.stall c⟩
  goOn first second := by
    refine ⟨?_, fun ok => (first.2 rfl).append (second.2 ok)⟩
    intro there
    have same := (first.1 there).1 _ rfl
    exact reportsBehind_after (first.2 rfl) (same.trans there.symm) second.1 there
  retry first second := by
    refine ⟨?_, fun ok => (first.2 rfl).append (second.2 ok)⟩
    exact reportsBehind_after (first.2 rfl) rfl second.1

theorem quietlyBehind_unmet (items : Array (Spanned ι)) (own : Nat → ε → Prop) (e : ε) :
    Parser.Ensures (Parser.unmet e : Parser ι (Value ι) ε) (quietlyBehind items own) := by
  intro c r found
  obtain rfl := Option.some.inj found
  refine ⟨?_, fun matched => nomatch matched⟩
  intro there
  refine ⟨fun d matched => (nomatch matched), ?_⟩
  intro e' s failed
  obtain ⟨rfl, rfl⟩ := Outcome.errored.inj failed
  exact ⟨c, there, rfl, .missed .nil⟩

namespace Cursor

variable {c : Cursor ι}

/-- Errors are reported at the item in front, or at the first one at the very beginning. -/
theorem lastSpan_of_item {x : Spanned ι} (item : c.items[c.position - 1]? = some x) :
    c.lastSpan = x.span := by
  unfold lastSpan previous
  rcases place : c.position with _ | k
  · rw [place] at item
    simp [startSpan, item]
  · rw [place, Nat.add_sub_cancel] at item
    simp [item]

theorem lastSpan_of_empty (empty : c.items.size = 0) : c.lastSpan = .zero := by
  have bound := c.position_le
  have place : c.position = 0 := by omega
  have first : c.items[0]? = none := Array.getElem?_eq_none (by omega)
  simp [lastSpan, previous, startSpan, place, first]

end Cursor

namespace Source

variable (src : Source) {d : Cursor Char}

/-- A character has the span from its offset to the next one. -/
theorem exists_item {i : Nat} (bound : i < src.chars.length) :
    ∃ x, src.input.items[i]? = some x ∧ x.span = ⟨i, i + 1⟩ := by
  have fits := src.size_chars_le
  rw [List.size_toArray] at fits
  have offset : saturatingAdd 0 i = i := by
    rw [saturatingAdd_eq_add (by omega), Nat.zero_add]
  have char : src.chars.toArray[i]? = some src.chars[i] := by
    rw [List.getElem?_toArray, List.getElem?_eq_getElem bound]
  have numbered := Input.getElem?_numbered src.chars.toArray 0 i src.size_chars_le
  rw [char, offset] at numbered
  refine ⟨_, numbered, ?_⟩
  rw [Input.unitSpan, saturatingAdd_eq_add (by omega)]

theorem size_items : src.input.items.size = src.chars.length := by
  have size := src.size_input
  rwa [← String.length_toList] at size

/-- Where an error at a cursor in the text is reported: at the character in front of it,
or at the first character if there is none in front. -/
theorem lastSpan_eq (there : d.items = src.input.items) (more : 0 < src.chars.length) :
    d.position - 1 < src.chars.length ∧ d.lastSpan = ⟨d.position - 1, d.position - 1 + 1⟩ := by
  have bound := d.position_le
  rw [there, size_items] at bound
  have inside : d.position - 1 < src.chars.length := by omega
  obtain ⟨x, item, span⟩ := src.exists_item inside
  rw [← there] at item
  rw [Cursor.lastSpan_of_item item, span]
  exact ⟨inside, rfl⟩

end Source

namespace Grammar

variable {table : ρ → Grammar ρ Char ε} {g : Grammar ρ Char ε}

/-- What is left to show are the outcomes that the grammar computes on its own and its
contexts. That they miss no requirement unless they fail holds of every grammar. -/
theorem ownReplies_of_reportsBehind [DecidableEq ι] {table : ρ → Grammar ρ ι ε}
    {g : Grammar ρ ι ε} {items : Array (Spanned ι)} {own : Nat → ε → Prop}
    (answers : ∀ f, Includes table g (.answer f) →
      (Parser.ofOutcome f).Ensures (reportsBehind items own))
    (contexts : ContextsKeep (fun p => p.Ensures (reportsBehind items own)) table
      (Includes table g)) :
    OwnReplies (quietlyBehind items own) table (Includes table g) where
  parts _ _ included inside := included.part inside
  unmet _ e _ := quietlyBehind_unmet items own e
  answer f included c r found := by
    refine ⟨answers f included c r found, ?_⟩
    obtain rfl := Option.some.inj found
    exact fun _ => .nil
  context p next included depth rules value chosen c r found := by
    have behind := contexts p next included depth
      (fun m le rule called d x hx => (rules m le rule called d x hx).1) value
      (fun d inside e x hx => (chosen d inside e x hx).1) c r found
    refine ⟨behind, ?_⟩
    intro ok
    apply quiet_run table (next value c) found
    obtain ⟨_ | _ | _, log⟩ := r
    · rfl
    · rfl
    · exact nomatch ok

/-- Every error can be shown in the text. If own outcomes and contexts stay on the text and
report in front of their cursor, an error raised at the position `q` has the span of the
character in front of `q`, or of the first one. Its line exists and has that character at the
column, unless it ends the line. In an empty text there is nothing to show. -/
theorem errors_resolve (src : Source) (own : Nat → ε → Prop)
    (answers : ∀ f, Includes table g (.answer f) →
      (Parser.ofOutcome f).Ensures (reportsBehind src.input.items own))
    (contexts : ContextsKeep (fun p => p.Ensures (reportsBehind src.input.items own)) table
      (Includes table g))
    {depth : Nat} {c : Cursor Char} (there : c.items = src.input.items) {e : ε} {span : Span}
    {log : List Event} (found : run table depth g c = some ⟨.errored e span, log⟩) :
    ∃ q, q ≤ src.chars.length ∧ RaisedAt own q e span log ∧
      (src.chars ≠ [] → ∃ i line, i < src.chars.length ∧ i = q - 1 ∧ span = ⟨i, i + 1⟩ ∧
        src.lineOf? span = some line ∧ src.Shows span.start line) ∧
      (src.chars = [] → span = ⟨0, 0⟩ ∧ src.locate span.start = ⟨1, 0⟩ ∧
        src.lineOf? span = none) := by
  have replies := ownReplies_of_reportsBehind answers contexts
  have located := (ensures_run (quietlyBehind_composes src.input.items own) replies
    (.refl table g) depth c _ found).1 there
  obtain ⟨d, same, rfl, raised⟩ := located.2 e span rfl
  have bound := d.position_le
  rw [same, src.size_items] at bound
  refine ⟨d.position, bound, raised, ?_, ?_⟩
  · intro more
    obtain ⟨inside, spanned⟩ := src.lastSpan_eq same (List.length_pos_iff.mpr more)
    obtain ⟨line, shown⟩ := src.exists_shows inside
    refine ⟨d.position - 1, line, inside, rfl, spanned, ?_, ?_⟩
    · rw [spanned]
      exact shown.found
    · rw [spanned]
      exact shown
  · intro empty
    have spanned : d.lastSpan = .zero := by
      apply Cursor.lastSpan_of_empty
      rw [same, src.size_items, empty]
      rfl
    rw [spanned]
    refine ⟨rfl, rfl, ?_⟩
    unfold Source.lineOf? Source.line?
    rw [empty]
    rfl

/-- Go on where the letter found is not a reserved one. -/
def unreserved (value : Value Char) : Grammar Unit Char String := .answer fun cursor =>
  if value = .item 'x' then .errored "reserved" cursor.lastSpan else .matched .unit cursor

/-- A letter that is not reserved, with a digit that has to follow it. -/
def entry : Grammar Unit Char String :=
  .both .left (.withContext (.satisfy Char.isAlpha) fun value _ => unreserved value)
    (.require (.both .right (.just '=') (.satisfy Char.isDigit)) "no value")

/-- Entries in lines of their own. There has to be one, and one after each line end. -/
def entries : Grammar Unit Char String :=
  .both .cons (.require (.call ()) "no entry")
    (.repeated (.both .right (.sequence ['\r', '\n']) (.require (.call ()) "no entry")) 0)

/-- All that entries compute on their own is whether a letter is reserved. -/
def ReservesOnly : Grammar Unit Char String → Prop
  | .answer f => ∃ value, (.answer f : Grammar Unit Char String) = unreserved value
  | .withContext _ next => next = fun value _ => unreserved value
  | _ => True

theorem reservesOnly_entry : Everywhere ReservesOnly entry := by
  refine ⟨trivial, ⟨rfl, trivial, fun value _ => ⟨value, rfl⟩⟩, ?_⟩
  simp [Everywhere, ReservesOnly]

theorem reservesOnly_entries : Everywhere ReservesOnly entries := by
  simp [entries, Everywhere, ReservesOnly]

theorem reservesOnly_of_includes {h : Grammar Unit Char String}
    (included : Includes (fun _ => entry) entries h) : ReservesOnly h :=
  reservesOnly_entries.of_reaches (fun _ => reservesOnly_entry) included.reaches

/-- A reserved letter is reported in front of the cursor behind it. -/
theorem reportsBehind_unreserved (items : Array (Spanned Char)) (depth : Nat)
    (value : Value Char) : (run (fun _ => entry) depth (unreserved value)).Ensures
      (reportsBehind items fun _ e => e = "reserved") := by
  apply Parser.ensures_ofOutcome
  intro c
  split
  · intro there
    refine ⟨fun d matched => (nomatch matched), ?_⟩
    intro e s failed
    obtain ⟨rfl, rfl⟩ := Outcome.errored.inj failed
    exact ⟨c, there, rfl, .reported .nil rfl⟩
  · exact reportsBehind_of_matched rfl []

theorem answers_entries (items : Array (Spanned Char))
    (f : Cursor Char → Outcome Char (Value Char) String)
    (included : Includes (fun _ => entry) entries (.answer f)) :
    (Parser.ofOutcome f).Ensures (reportsBehind items fun _ e => e = "reserved") := by
  obtain ⟨value, same⟩ := reservesOnly_of_includes included
  have behind := reportsBehind_unreserved items 0 value
  rw [← same] at behind
  exact behind

theorem contexts_entries (items : Array (Spanned Char)) :
    ContextsKeep (fun p => p.Ensures (reportsBehind items fun _ e => e = "reserved"))
      (fun _ => entry) (Includes (fun _ => entry) entries) := by
  intro p next included depth _ value _
  obtain rfl := reservesOnly_of_includes included
  exact reportsBehind_unreserved items depth value

def missingEntry : Source := .ofText "a=1\r\n" (by decide)

def reservedEntry : Source := .ofText "a=1\r\nx=2" (by decide)

def noEntries : Source := .ofText "" (by decide)

def entriesFailAt (src : Source) (span : Span) : Bool :=
  (run (fun _ => entry) 1 entries src.input.start).any fun r =>
    match r.outcome with
    | .errored _ s => decide (s = span)
    | _ => false

theorem run_entries_of_failAt {src : Source} {span : Span}
    (failed : entriesFailAt src span = true) :
    ∃ e log, run (fun _ => entry) 1 entries src.input.start = some ⟨.errored e span, log⟩ := by
  obtain ⟨⟨_ | _ | ⟨e, s⟩, log⟩, found, same⟩ := (Option.any_eq_true _ _).mp failed
  · exact nomatch same
  · exact nomatch same
  · obtain rfl : s = span := of_decide_eq_true same
    exact ⟨e, log, found⟩

/-- The first error is shown behind the first line, since it is reported at the line feed.
The second one is shown at the reserved letter, and the last one is not shown. -/
theorem errors_resolve_entries :
    (entriesFailAt missingEntry ⟨4, 5⟩ = true ∧ missingEntry.lineOf? ⟨4, 5⟩ = some "a=1" ∧
      missingEntry.Shows 4 "a=1") ∧
    (entriesFailAt reservedEntry ⟨5, 6⟩ = true ∧ reservedEntry.lineOf? ⟨5, 6⟩ = some "x=2" ∧
      reservedEntry.Shows 5 "x=2") ∧
    entriesFailAt noEntries ⟨0, 0⟩ = true ∧ noEntries.locate 0 = ⟨1, 0⟩ ∧
      noEntries.lineOf? ⟨0, 0⟩ = none := by
  have missing : entriesFailAt missingEntry ⟨4, 5⟩ = true := by decide +kernel
  have reserved : entriesFailAt reservedEntry ⟨5, 6⟩ = true := by decide +kernel
  have nothing : entriesFailAt noEntries ⟨0, 0⟩ = true := by decide +kernel
  have first : missingEntry.lineOf? ⟨4, 5⟩ = some "a=1" := by decide +kernel
  have second : reservedEntry.lineOf? ⟨5, 6⟩ = some "x=2" := by decide +kernel
  refine ⟨⟨missing, first, ?_⟩, ⟨reserved, second, ?_⟩, nothing, ?_⟩
  · obtain ⟨e, log, found⟩ := run_entries_of_failAt missing
    obtain ⟨q, -, -, shown, -⟩ := errors_resolve missingEntry _ (answers_entries _)
      (contexts_entries _) rfl found
    obtain ⟨i, line, -, -, -, same, display⟩ := shown (by decide +kernel)
    rw [first] at same
    rwa [← Option.some.inj same] at display
  · obtain ⟨e, log, found⟩ := run_entries_of_failAt reserved
    obtain ⟨q, -, -, shown, -⟩ := errors_resolve reservedEntry _ (answers_entries _)
      (contexts_entries _) rfl found
    obtain ⟨i, line, -, -, -, same, display⟩ := shown (by decide +kernel)
    rw [second] at same
    rwa [← Option.some.inj same] at display
  · obtain ⟨e, log, found⟩ := run_entries_of_failAt nothing
    obtain ⟨q, -, -, -, empty⟩ := errors_resolve noEntries _ (answers_entries _)
      (contexts_entries _) rfl found
    exact (empty (by decide +kernel)).2

end Grammar

end SpannedParsing
