import SpannedParsing.Proofs.CursorDiscipline
import SpannedParsing.Proofs.Progress
import SpannedParsing.Proofs.SourceOrder

/-!
# Sums of captured spans

The span between two cursors starts at the offset of the first one. It stops where the
last item between them does, or at the same offset where there is none. So the spans of
two stretches that follow each other add up to the span of both, with one exception. The
span of an empty stretch stands where the next item starts, and in front of that item
there may be a gap: a sum with such a span reaches over the gap, and the span of both
stretches does not.

The spans of the items may be anything here. They need not be in order.
-/
namespace SpannedParsing

variable {ι α β ε : Type}

/-- Every item starts where the one in front of it stops. -/
def Gapless (items : Array (Spanned ι)) : Prop :=
  ∀ (i : Nat) (x y : Spanned ι), items[i]? = some x → items[i + 1]? = some y →
    x.span.stop = y.span.start

/-- A sum is determined by the start of its first and the stop of its second part. -/
theorem Span.join_eq_iff (s t u : Span) : s.join t = u ↔ s.start = u.start ∧ t.stop = u.stop := by
  cases u
  exact Span.mk.injEq _ _ _ _ ▸ Iff.rfl

namespace Cursor

variable {a b c : Cursor ι}

/-- The item consumed last stops where the cursor stands. -/
def Touches (c : Cursor ι) : Prop := ∃ last, c.previous = some last ∧ c.offset = last.span.stop

/-- The cursor stands between two items, and the next one does not start where the last one
stops. -/
structure AtGap (c : Cursor ι) (last next : Spanned ι) : Prop where
  previous : c.previous = some last
  peek : c.peek = some next
  apart : next.span.start ≠ last.span.stop

theorem touches_of_atEnd (ended : c.atEnd = true) (behind : 0 < c.position) : c.Touches := by
  obtain ⟨last, previous⟩ := exists_previous behind
  exact ⟨last, previous, offset_of_end ((atEnd_iff_peek c).mp ended) previous⟩

theorem touches_of_gapless (gapless : Gapless c.items) (behind : 0 < c.position) :
    c.Touches := by
  obtain ⟨last, previous⟩ := exists_previous behind
  refine ⟨last, previous, ?_⟩
  rcases peek : c.peek with _ | next
  · exact offset_of_end peek previous
  · obtain ⟨i, place, item⟩ := previous_eq_some previous
    have ahead : c.items[i + 1]? = some next := place ▸ peek
    rw [offset_of_peek peek]
    exact (gapless i last next item ahead).symm

/-- Behind some item, a cursor either touches it or stands at a gap. -/
theorem not_touches_iff (behind : 0 < c.position) :
    ¬ c.Touches ↔ ∃ last next, c.AtGap last next := by
  obtain ⟨last, previous⟩ := exists_previous behind
  constructor
  · intro apart
    rcases peek : c.peek with _ | next
    · exact absurd ⟨last, previous, offset_of_end peek previous⟩ apart
    · refine ⟨last, next, previous, peek, ?_⟩
      intro same
      exact apart ⟨last, previous, by rw [offset_of_peek peek, same]⟩
  · rintro ⟨last', next, gap⟩ ⟨last'', previous', touches⟩
    obtain rfl := Option.some.inj (gap.previous.symm.trans previous')
    rw [offset_of_peek gap.peek] at touches
    exact gap.apart touches

theorem start_spanUntil (c d : Cursor ι) : (c.spanUntil d).start = c.offset := by
  unfold spanUntil
  split
  · rcases peek : c.peek with _ | first
    · rfl
    · rcases d.previous with _ | last
      · rfl
      · exact (offset_of_peek peek).symm
  · rfl

theorem stop_spanUntil_of_lt (same : b.items = a.items) (lt : a.position < b.position)
    {last : Spanned ι} (previous : b.previous = some last) :
    (a.spanUntil b).stop = last.span.stop := by
  have bound := b.position_le
  rw [same] at bound
  obtain ⟨first, peek⟩ := a.exists_peek (by omega)
  rw [spanUntil, if_pos lt, peek, previous]
  rfl

/-- Without an item in it, the span stops where it starts. -/
theorem stop_spanUntil_of_le (le : b.position ≤ a.position) :
    (a.spanUntil b).stop = a.offset := by
  rw [spanUntil, if_neg (by omega)]
  rfl

theorem previous_congr (items : a.items = b.items) (position : a.position = b.position) :
    a.previous = b.previous := by
  unfold previous
  rw [items, position]

theorem offset_congr (items : a.items = b.items) (position : a.position = b.position) :
    a.offset = b.offset := by
  unfold offset peek
  rw [previous_congr items position, items, position]

/-- Spans of stretches that follow each other add up, unless the second stretch is empty,
the first one is not, and the cursor between them is at a gap. -/
theorem join_spanUntil_iff (first : b.items = a.items) (second : c.items = a.items)
    (le : a.position ≤ b.position) (le' : b.position ≤ c.position) :
    (a.spanUntil b).join (b.spanUntil c) = a.spanUntil c ↔
      a.position = b.position ∨ b.position < c.position ∨ b.Touches := by
  rw [Span.join_eq_iff, start_spanUntil, start_spanUntil, and_iff_right rfl]
  by_cases moved : b.position < c.position
  · obtain ⟨last, previous⟩ := exists_previous (c := c) (by omega)
    have stops := stop_spanUntil_of_lt (second.trans first.symm) moved previous
    have stops' := stop_spanUntil_of_lt second (by omega : a.position < c.position) previous
    rw [stops, stops']
    simp [moved]
  · rw [stop_spanUntil_of_le (by omega : c.position ≤ b.position)]
    by_cases stayed : a.position = b.position
    · rw [stop_spanUntil_of_le (by omega : c.position ≤ a.position),
        offset_congr first stayed.symm]
      simp [stayed]
    · obtain ⟨last, previous⟩ := exists_previous (c := b) (by omega)
      have later : c.previous = some last := by
        rw [← previous, previous_congr (second.trans first.symm) (by omega)]
      rw [stop_spanUntil_of_lt second (by omega) later]
      simp [stayed, moved, Touches, previous]

theorem touching_iff (le : a.position ≤ b.position) (le' : b.position ≤ c.position) :
    a.position = b.position ∨ b.position < c.position ∨ b.Touches ↔
      ¬ (a.position < b.position ∧ b.position = c.position ∧
        ∃ last next, b.AtGap last next) := by
  constructor
  · rintro (stayed | ahead | touches) ⟨moved, nothing, gap⟩
    · omega
    · omega
    · exact (not_touches_iff (by omega)).mpr gap touches
  · intro sound
    refine Classical.byContradiction fun other => ?_
    obtain ⟨moved, nothing, apart⟩ : a.position ≠ b.position ∧ ¬ b.position < c.position ∧
        ¬ b.Touches := by simpa only [not_or] using other
    exact sound ⟨by omega, by omega, (not_touches_iff (by omega)).mp apart⟩

/-- At a gap, the sum stops behind the gap, and the span of both stretches in front of it. -/
theorem join_spanUntil_of_gap (first : b.items = a.items) (second : c.items = a.items)
    (moved : a.position < b.position) (nothing : b.position = c.position) {last next : Spanned ι}
    (gap : b.AtGap last next) :
    (a.spanUntil b).join (b.spanUntil c) = ⟨(a.spanUntil c).start, next.span.start⟩ ∧
      (a.spanUntil c).stop = last.span.stop := by
  have later : c.previous = some last := by
    rw [← gap.previous, previous_congr (second.trans first.symm) nothing.symm]
  constructor
  · rw [Span.join_eq_iff, start_spanUntil, start_spanUntil]
    refine ⟨rfl, ?_⟩
    rw [stop_spanUntil_of_le (by omega), offset_of_peek gap.peek]
  · exact stop_spanUntil_of_lt second (by omega) later

end Cursor

namespace Parser

/-- Matches among these items stay among them and do not go back. -/
def GoesOn (items : Array (Spanned ι)) (p : Parser ι α ε) : Prop :=
  ∀ c, c.items = items → ∀ a d log, p c = some ⟨.matched a d, log⟩ →
    d.items = items ∧ c.position ≤ d.position

variable {p : Parser ι α ε} {q : Parser ι β ε} {c d : Cursor ι} {log : List Event}

theorem spanned_of_matched {a : α} (found : p c = some ⟨.matched a d, log⟩) :
    p.spanned c = some ⟨.matched ⟨a, c.spanUntil d⟩ d, log⟩ := by
  rw [spanned_apply, found]
  rfl

theorem matched_of_spanned {v : Spanned α} (found : p.spanned c = some ⟨.matched v d, log⟩) :
    p c = some ⟨.matched v.item d, log⟩ ∧ v.span = c.spanUntil d := by
  rw [spanned_apply, Option.map_eq_some_iff] at found
  obtain ⟨⟨⟨a, rest⟩ | _ | ⟨e, s⟩, log'⟩, reply, same⟩ := found
  · obtain ⟨outcome, rfl⟩ := Reply.mk.inj same
    obtain ⟨rfl, rfl⟩ := Outcome.matched.inj outcome
    exact ⟨reply, rfl⟩
  · exact nomatch (Reply.mk.inj same).1
  · exact nomatch (Reply.mk.inj same).1

/-- A match of two parts, one after the other, goes through a cursor between them. -/
theorem matched_of_pair {v : α × β} (found : p.pair q c = some ⟨.matched v d, log⟩) :
    ∃ b l m, p c = some ⟨.matched v.1 b, l⟩ ∧ q b = some ⟨.matched v.2 d, m⟩ ∧
      log = l ++ m := by
  obtain ⟨a, b, l, m, first, second, rfl⟩ := matched_of_andThen found
  obtain ⟨a', matched, rfl⟩ := matched_of_map second
  exact ⟨b, l, m, first, matched, rfl⟩

theorem goesOn_of_endsAhead {items : Array (Spanned ι)} (ahead : p.Ensures endsAhead) :
    p.GoesOn items := by
  intro c there a d log found
  have follows := ahead c _ found d rfl
  exact ⟨follows.items.trans there, follows.position⟩

/-- Captured spans add up: those between three cursors in a row, unless the second stretch is
empty, the first one is not, and the cursor between them is at a gap; and so do the spans of
two parts, one after the other. At a gap, the sum stops behind the gap, and the captured span
in front of it. -/
theorem captured_spans_add (items : Array (Spanned ι)) :
    (∀ a b c : Cursor ι, a.items = items → b.items = items → c.items = items →
      a.position ≤ b.position → b.position ≤ c.position →
        ((a.spanUntil b).join (b.spanUntil c) = a.spanUntil c ↔
          a.position = b.position ∨ b.position < c.position ∨ b.Touches)) ∧
    (∀ b : Cursor ι, b.items = items → 0 < b.position → b.atEnd = true ∨ Gapless items →
      b.Touches) ∧
    ∀ (p : Parser ι α ε) (q : Parser ι β ε), p.GoesOn items → q.GoesOn items →
      ∀ a c v log, a.items = items → (p.pair q).spanned a = some ⟨.matched v c, log⟩ →
        ∃ b first second l m,
          p.spanned a = some ⟨.matched ⟨v.item.1, first⟩ b, l⟩ ∧
          q.spanned b = some ⟨.matched ⟨v.item.2, second⟩ c, m⟩ ∧ log = l ++ m ∧
          (v.span = first.join second ↔
            ¬ (a.position < b.position ∧ b.position = c.position ∧
              ∃ last next, b.AtGap last next)) ∧
          ∀ last next, b.AtGap last next → a.position < b.position → b.position = c.position →
            first.join second = ⟨v.span.start, next.span.start⟩ ∧
              v.span.stop = last.span.stop := by
  refine ⟨?_, ?_, ?_⟩
  · intro a b c here there there' le le'
    exact Cursor.join_spanUntil_iff (there.trans here.symm) (there'.trans here.symm) le le'
  · rintro b rfl behind (ended | gapless)
    · exact Cursor.touches_of_atEnd ended behind
    · exact Cursor.touches_of_gapless gapless behind
  · intro p q hp hq a c v log here found
    obtain ⟨pair, span⟩ := matched_of_spanned found
    obtain ⟨b, l, m, first, second, logs⟩ := matched_of_pair pair
    obtain ⟨there, le⟩ := hp a here _ _ _ first
    obtain ⟨there', le'⟩ := hq b there _ _ _ second
    have same := there.trans here.symm
    have same' := there'.trans here.symm
    refine ⟨b, _, _, l, m, spanned_of_matched first, spanned_of_matched second, logs, ?_, ?_⟩
    · rw [span, eq_comm, Cursor.join_spanUntil_iff same same' le le']
      exact Cursor.touching_iff le le'
    · intro last next gap moved stayed
      rw [span]
      exact Cursor.join_spanUntil_of_gap same same' moved stayed gap

def letter : Parser Char Char String := just 'a'

def mark : Parser Char (Option Char) String := optional (just ';')

/-- Two letters with a gap between them. -/
def gapStart : Cursor Char where
  items := #[⟨'a', ⟨0, 2⟩⟩, ⟨'b', ⟨3, 4⟩⟩]
  position := 0
  source := none
  position_le := Nat.zero_le _
  size_le := by decide

/-- The mark behind the first letter is missing, and its empty span stands behind the gap. -/
theorem captured_spans_add_gap :
    ∃ v b c first second log l m,
      (letter.pair mark).spanned gapStart = some ⟨.matched v c, log⟩ ∧
        letter.spanned gapStart = some ⟨.matched ⟨v.item.1, first⟩ b, l⟩ ∧
        mark.spanned b = some ⟨.matched ⟨v.item.2, second⟩ c, m⟩ ∧
        v.span = ⟨0, 2⟩ ∧ first.join second = ⟨0, 3⟩ := by
  have one (x : Char) : (just x : Parser Char Char String).Ensures endsAhead :=
    ensures_satisfy endsAhead_composes _
  have maybe : mark.Ensures endsAhead :=
    (one ';').branch endsAhead_composes (fun _ => ensures_succeed endsAhead_composes _)
      (ensures_succeed endsAhead_composes none)
  have found : (letter.pair mark).spanned gapStart =
      some ⟨.matched ⟨('a', none), ⟨0, 2⟩⟩ gapStart.next, []⟩ := by rfl
  obtain ⟨b, first, second, l, m, here, behind, -, -, sum⟩ :=
    (captured_spans_add gapStart.items).2.2 letter mark (goesOn_of_endsAhead (one 'a'))
      (goesOn_of_endsAhead maybe) _ _ _ _ rfl found
  obtain ⟨outcome, -⟩ := Reply.mk.inj (Option.some.inj here)
  obtain ⟨-, rfl⟩ := Outcome.matched.inj outcome
  have gap : gapStart.next.AtGap ⟨'a', ⟨0, 2⟩⟩ ⟨'b', ⟨3, 4⟩⟩ := ⟨rfl, rfl, by decide⟩
  exact ⟨_, _, _, first, second, _, l, m, found, here, behind, rfl,
    (sum _ _ gap (by decide) rfl).1⟩

end Parser

end SpannedParsing
