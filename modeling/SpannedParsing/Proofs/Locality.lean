import SpannedParsing.Proofs.Coupling
import SpannedParsing.Proofs.Invariant

/-!
# What lies behind the cursor

The same items are parsed twice, once with other items in front of them and once
without. Both parses go through them in lockstep and see the same items ahead. Two
things do look behind the cursor. A captured span at the end of the items starts
where the item before it stops, and an error is reported at the item consumed
last. Of an item behind the cursor both parses have the same one, unless nothing
has been consumed yet; so the only thing that can differ is the span of an error
that is raised at the very beginning.
-/
namespace SpannedParsing

variable {ρ ι ε : Type}

/-- At least one item, other items in front of them, and a path for the long and
for the short input. -/
structure Extension (ι : Type) where
  before : Array (Spanned ι)
  items : Array (Spanned ι)
  longSource : Option Path
  shortSource : Option Path
  size_pos : 0 < items.size

namespace Extension

/-- Both cursors stand at the place `q` among the items, the first one in the long
input and the second one in the short input. -/
structure Lockstep (w : Extension ι) (q : Nat) (c d : Cursor ι) : Prop where
  long : c.items = w.before ++ w.items
  short : d.items = w.items
  shifted : c.position = w.before.size + q
  place : d.position = q
  longSource : c.source = w.longSource
  shortSource : d.source = w.shortSource

/-- Where an error that is raised at the place `q` is reported in both runs. With
nothing consumed, these are the last item in front and the first item. -/
def Reported (w : Extension ι) (q : Nat) (s t : Span) : Prop :=
  if q = 0 then
    (w.before.back?.or w.items[0]?).map Spanned.span = some s ∧
      w.items[0]?.map Spanned.span = some t
  else s = t

/-- Both runs fail with the error `e` at the place `q`: a required part missed there
and was reported, or the grammar raised the error on its own, for which `own` gives
the places. -/
inductive FailsAt (w : Extension ι) (own : Nat → ε → Prop) (q : Nat) (e : ε) :
    Span → List Event → Span → List Event → Prop
  | missed {s t : Span} {l m : List Event} (spans : w.Reported q s t) (quiet : Quiet l)
      (quiet' : Quiet m) :
    FailsAt w own q e s (l ++ [.requirementMissed (w.before.size + q) s])
      t (m ++ [.requirementMissed q t])
  | raised {s t : Span} {l m : List Event} (spans : w.Reported q s t) (cause : own q e)
      (quiet : Quiet l) (quiet' : Quiet m) : FailsAt w own q e s l t m

/-- The runs on the long and on the short input, from the place `i` on. Matches go
on in lockstep, and errors are the same up to the spans at the beginning. -/
def coupling (w : Extension ι) (own : Nat → ε → Prop) (i : Nat) : Coupling ι ι ε where
  cursor c d := ∃ q, i ≤ q ∧ w.Lockstep q c d
  log _ _ := True
  failure e s l t m := ∃ q, i ≤ q ∧ w.FailsAt own q e s l t m

/-- The same runs, where no requirement has been missed so far. -/
def quietCoupling (w : Extension ι) (own : Nat → ε → Prop) (i : Nat) : Coupling ι ι ε :=
  { w.coupling own i with log := fun l m => Quiet l ∧ Quiet m }

namespace Lockstep

variable {w : Extension ι} {q q' : Nat} {c d c' d' : Cursor ι}

theorem place_le (h : w.Lockstep q c d) : q ≤ w.items.size := by
  have bound := d.position_le
  rwa [h.short, h.place] at bound

/-- The same items with the same spans lie ahead. -/
theorem remaining (h : w.Lockstep q c d) : c.remaining = d.remaining := by
  unfold Cursor.remaining
  rw [h.long, h.short, h.shifted, h.place, Array.toList_append, List.drop_append]
  simp

theorem peek (h : w.Lockstep q c d) : c.peek = d.peek := by
  rw [Cursor.peek_eq_head?, Cursor.peek_eq_head?, h.remaining]

/-- Of the items behind the cursor, only those in front of all are different. -/
theorem previous (h : w.Lockstep q c d) : c.previous = d.previous.or w.before.back? := by
  have behind : c.consumed = w.before.toList ++ d.consumed := by
    unfold Cursor.consumed
    rw [h.long, h.short, h.shifted, h.place, Array.toList_append, List.take_append,
      List.take_of_length_le (by simp)]
    simp
  rw [Cursor.previous_eq_getLast?, Cursor.previous_eq_getLast?, behind, List.getLast?_append]
  simp

theorem previous_of_pos (h : w.Lockstep q c d) (pos : 0 < q) :
    ∃ last, c.previous = some last ∧ d.previous = some last := by
  have bound := h.place_le
  obtain ⟨k, rfl⟩ : ∃ k, q = k + 1 := ⟨q - 1, by omega⟩
  have found : d.previous = some w.items[k] := by
    simp [Cursor.previous, h.place, h.short]
  exact ⟨w.items[k], by rw [h.previous, found]; rfl, found⟩

theorem advance (h : w.Lockstep q c d) (n : Nat) :
    w.Lockstep (min (q + n) w.items.size) (c.advance n) (d.advance n) where
  long := h.long
  short := h.short
  shifted := by
    rw [Cursor.position_advance, h.shifted, h.long, Array.size_append]
    omega
  place := by rw [Cursor.position_advance, h.place, h.short]
  longSource := h.longSource
  shortSource := h.shortSource

/-- The offset looks behind the cursor only at the end of the items, where one of
them has been consumed. -/
theorem offset (h : w.Lockstep q c d) : c.offset = d.offset := by
  unfold Cursor.offset
  rw [h.peek]
  rcases ahead : d.peek with _ | next
  · have ended : w.items.size ≤ q := by
      have none := Array.getElem?_eq_none_iff.mp ahead
      rwa [h.short, h.place] at none
    have pos := w.size_pos
    obtain ⟨last, long, short⟩ := h.previous_of_pos (by omega)
    rw [long, short]
  · rfl

theorem spanUntil (h : w.Lockstep q c d) (later : w.Lockstep q' c' d') :
    c.spanUntil c' = d.spanUntil d' := by
  unfold Cursor.spanUntil
  rw [h.shifted, later.shifted, h.place, later.place, h.offset, h.peek]
  by_cases moved : q < q'
  · obtain ⟨last, long, short⟩ := later.previous_of_pos (by omega)
    rw [if_pos moved, if_pos (by omega), long, short]
  · rw [if_neg moved, if_neg (by omega)]

theorem lastSpan (h : w.Lockstep q c d) : w.Reported q c.lastSpan d.lastSpan := by
  unfold Reported Cursor.lastSpan
  by_cases start : q = 0
  · have none : d.previous = none := by simp [Cursor.previous, h.place, start]
    have first : ∃ x, w.items[0]? = some x := ⟨_, Array.getElem?_eq_getElem w.size_pos⟩
    obtain ⟨x, first⟩ := first
    have short : d.startSpan = x.span := by simp [Cursor.startSpan, h.short, first]
    rw [if_pos start, h.previous, none, Option.none_or, first, short]
    rcases front : w.before.back? with _ | last
    · have long : c.startSpan = x.span := by
        have empty : w.before = #[] := Array.back?_eq_none_iff.mp front
        simp [Cursor.startSpan, h.long, empty, first]
      simp [long]
    · simp
  · obtain ⟨last, long, short⟩ := h.previous_of_pos (by omega)
    rw [if_neg start, long, short]

end Lockstep

theorem Reported.eq_of_pos {w : Extension ι} {q : Nat} {s t : Span} (h : w.Reported q s t)
    (pos : 0 < q) : s = t := by
  unfold Reported at h
  rwa [if_neg (by omega)] at h

theorem FailsAt.reported {w : Extension ι} {own : Nat → ε → Prop} {q : Nat} {e : ε}
    {s t : Span} {l m : List Event} (h : w.FailsAt own q e s l t m) : w.Reported q s t := by
  cases h with
  | missed spans _ _ => exact spans
  | raised spans _ _ _ => exact spans

theorem FailsAt.after {w : Extension ι} {own : Nat → ε → Prop} {q : Nat} {e : ε}
    {s t : Span} {l m l' m' : List Event} (quiet : Quiet l) (quiet' : Quiet m)
    (h : w.FailsAt own q e s l' t m') : w.FailsAt own q e s (l ++ l') t (m ++ m') := by
  cases h with
  | missed spans long short =>
    rw [← List.append_assoc, ← List.append_assoc]
    exact .missed spans (quiet.append long) (quiet'.append short)
  | raised spans cause long short =>
    exact .raised spans cause (quiet.append long) (quiet'.append short)

section Coupling

variable (w : Extension ι) (own : Nat → ε → Prop) (i : Nat)

theorem quietCoupling_composes : (w.quietCoupling own i).Composes where
  left together := by
    obtain ⟨q, -, h⟩ := together
    rw [← Cursor.length_remaining, ← Cursor.length_remaining, h.remaining]
  moved together later := by
    obtain ⟨q, -, h⟩ := together
    obtain ⟨q', -, h'⟩ := later
    rw [h.shifted, h'.shifted, h.place, h'.place]
    omega
  silent := ⟨.nil, .nil⟩
  append first second := ⟨first.1.append second.1, first.2.append second.2⟩
  short n _ := by
    constructor <;> simp [Quiet, Event.isRequirement]
  stall _ := by
    constructor <;> simp [Quiet, Event.isRequirement]
  later logs failed := by
    obtain ⟨q, le, fails⟩ := failed
    exact ⟨q, le, fails.after logs.1 logs.2⟩

theorem quietCoupling_ahead : (w.quietCoupling own i).Ahead where
  items together := by
    obtain ⟨q, -, h⟩ := together
    rw [h.remaining]
  advance n together := by
    obtain ⟨q, le, h⟩ := together
    have bound := h.place_le
    exact ⟨min (q + n) w.items.size, by omega, h.advance n⟩

variable {w own i}

theorem alike_of_quiet {p : Parser ι (Value ι) ε}
    (h : Grammar.Alike (w.quietCoupling own i) p) : Grammar.Alike (w.coupling own i) p := by
  apply Parser.Coupled.relog _ h
  intro c d r r' _ _ _ _
  trivial

theorem quiet_of_alike {p : Parser ι (Value ι) ε}
    (quiet : ∀ c r, p c = some r → r.outcome.isErrored = false → Quiet r.log)
    (h : Grammar.Alike (w.coupling own i) p) : Grammar.Alike (w.quietCoupling own i) p := by
  apply Parser.Coupled.relog _ h
  intro c d r r' long short ok ok'
  exact ⟨quiet c r long ok, quiet d r' short ok'⟩

end Coupling

end Extension

namespace Grammar

open Extension

variable [DecidableEq ι] {table : ρ → Grammar ρ ι ε} {g : Grammar ρ ι ε}

/-- What is left to show in the two runs, by the requirements and spans of the
grammar itself and by what is asked of its own outcomes and contexts. -/
theorem ownRuns_of_alike {w : Extension ι} {own : Nat → ε → Prop} {i : Nat}
    (answers : ∀ f, Includes table g (.answer f) →
      Alike (w.coupling own i) (Parser.ofOutcome f))
    (contexts : ContextsKeep (Alike (w.coupling own i)) table (Includes table g)) :
    OwnRuns (w.quietCoupling own i) table (Includes table g) where
  parts _ _ included inside := included.part inside
  unmet p e _ := by
    rintro c d ⟨q, le, h⟩
    rw [Parser.unmet_apply, Parser.unmet_apply, h.shifted, h.place]
    exact .some (.errored ⟨q, le, .missed h.lastSpan .nil .nil⟩)
  captured p _ := by
    rintro c d rest rest' ⟨q, -, h⟩ ⟨q', -, later⟩
    exact h.spanUntil later
  answer f included := by
    refine quiet_of_alike ?_ (answers f included)
    intro c r found _
    obtain rfl := Option.some.inj found
    exact .nil
  context p next included depth rules value chosen := by
    refine quiet_of_alike ?_ (contexts p next included depth ?_ value ?_)
    · intro c r found ok
      exact quiet_run table (next value c) found ok
    · intro m le r called
      exact alike_of_quiet (rules m le r called)
    · intro c inside
      exact alike_of_quiet (chosen c inside)

/-- A parse depends on the items at and after the cursor alone. From the same place
on, the parses with and without the items in front give replies of the same kind,
with equal values and cursors in lockstep, or with the same error; the spans of the
error are equal, unless it was raised before anything was consumed. -/
theorem depends_on_rest (w : Extension ι) (own : Nat → ε → Prop) {i : Nat}
    (answers : ∀ f, Includes table g (.answer f) →
      Alike (w.coupling own i) (Parser.ofOutcome f))
    (contexts : ContextsKeep (Alike (w.coupling own i)) table (Includes table g))
    (depth : Nat) {c d : Cursor ι} (together : w.Lockstep i c d) :
    Option.Rel ((w.coupling own i).Replies Eq) (run table depth g c) (run table depth g d) ∧
      (0 < i → ∀ e s, (∃ l, run table depth g c = some ⟨.errored e s, l⟩) ↔
        ∃ m, run table depth g d = some ⟨.errored e s, m⟩) := by
  have alike : Alike (w.coupling own i) (run table depth g) := by
    apply alike_of_quiet
    exact alike_run (w.quietCoupling_composes own i) (w.quietCoupling_ahead own i)
      (ownRuns_of_alike answers contexts) (.refl table g) depth
  have replies := alike c d ⟨i, Nat.le_refl i, together⟩
  refine ⟨replies, ?_⟩
  intro pos e s
  generalize run table depth g c = x at replies ⊢
  generalize run table depth g d = y at replies ⊢
  cases replies with
  | none => simp
  | some replies =>
    cases replies with
    | matched _ _ _ => simp
    | noMatch _ => simp
    | errored failed =>
      obtain ⟨q, le, fails⟩ := failed
      have same := fails.reported.eq_of_pos (by omega)
      simp [same]

/-- Blocks that are not closed, and two other characters in front of them. -/
def unclosedBehind : Extension Item where
  before := (startOf "1a".toList (by decide)).items
  items := unclosedBlocks.items
  longSource := none
  shortSource := none
  size_pos := by decide

def behindStart : Cursor Item where
  items := unclosedBehind.before ++ unclosedBehind.items
  position := 2
  source := none
  position_le := by decide
  size_le := by decide

/-- The bracket is missed in both inputs, and all that a block consists of is read
alike. -/
theorem depends_on_rest_blocks :
    unclosedBehind.Lockstep 0 behindStart unclosedBlocks ∧
      ((run (fun _ => block) 3 blocks behindStart).any fun r => r.outcome.isErrored) = true ∧
      Option.Rel ((unclosedBehind.coupling (fun _ _ => False) 0).Replies Eq)
        (run (fun _ => block) 3 blocks behindStart)
        (run (fun _ => block) 3 blocks unclosedBlocks) := by
  have together : unclosedBehind.Lockstep 0 behindStart unclosedBlocks :=
    ⟨rfl, rfl, rfl, rfl, rfl, rfl⟩
  have taking (depth n : Nat) : Alike (unclosedBehind.coupling (fun _ _ => False) 0)
      (run (fun _ => block) depth (take n)) :=
    alike_of_quiet (alike_take (quietCoupling_composes _ _ _) (quietCoupling_ahead _ _ _) depth n)
  refine ⟨together, by decide +kernel, ?_⟩
  refine (depends_on_rest unclosedBehind (fun _ _ => False) ?_ ?_ 3 together).1
  · intro f included
    exact (onlyCounts_of_reaches included.reaches).answer _ (Alike _) (taking 0)
  · exact OnlyCounts.contexts (fun _ included => onlyCounts_of_reaches included.reaches) taking

end Grammar

end SpannedParsing
