import SpannedParsing.Proofs.CallDepth
import SpannedParsing.Proofs.Progress

/-!
# Reading a stretch of items

`Reads c xs d` says that the items from the cursor `c` up to the cursor `d` are `xs`.
Stretches are put together and taken apart by the lists of their items, and what a
parser for single items finds is said with stretches of one item.
-/
namespace SpannedParsing

variable {ι α β γ ε : Type}

namespace Cursor

def ahead (c : Cursor ι) : List ι := c.remaining.map Spanned.item

/-- These are the items from the first cursor up to the second one. -/
structure Reads (c : Cursor ι) (xs : List ι) (d : Cursor ι) : Prop extends c.SameInput d where
  ahead : c.ahead = xs ++ d.ahead

theorem length_ahead (c : Cursor ι) : c.ahead.length = c.left := by simp [ahead]

theorem ahead_of_peek {c : Cursor ι} {x : Spanned ι} (peek : c.peek = some x) :
    c.ahead = x.item :: c.next.ahead := by
  simp [ahead, remaining_eq_cons peek]

theorem peek_of_ahead {c : Cursor ι} {x : ι} {xs : List ι} (h : c.ahead = x :: xs) :
    ∃ s, c.peek = some s ∧ s.item = x := by
  rcases peek : c.peek with _ | s
  · simp [ahead, remaining_eq_nil peek] at h
  · rw [ahead_of_peek peek] at h
    exact ⟨s, rfl, (List.cons.inj h).1⟩

theorem ahead_advance (c : Cursor ι) (n : Nat) : (c.advance n).ahead = c.ahead.drop n := by
  rw [ahead, ahead, remaining_advance, List.map_drop]

namespace Reads

theorem refl (c : Cursor ι) : c.Reads [] c := ⟨.refl c, rfl⟩

theorem trans {c d e : Cursor ι} {xs ys : List ι} (h : c.Reads xs d) (k : d.Reads ys e) :
    c.Reads (xs ++ ys) e where
  items := k.items.trans h.items
  source := k.source.trans h.source
  ahead := by rw [h.ahead, k.ahead, List.append_assoc]

theorem left {c d : Cursor ι} {xs : List ι} (h : c.Reads xs d) :
    c.left = xs.length + d.left := by
  rw [← length_ahead, ← length_ahead, h.ahead, List.length_append]

theorem position {c d : Cursor ι} {xs : List ι} (h : c.Reads xs d) :
    d.position = c.position + xs.length := by
  have count := h.left
  have bound := c.position_le
  have bound' := d.position_le
  simp only [Cursor.left, h.items] at count bound'
  omega

theorem next {c : Cursor ι} {x : Spanned ι} (peek : c.peek = some x) :
    c.Reads [x.item] c.next where
  items := rfl
  source := rfl
  ahead := ahead_of_peek peek

/-- What lies ahead can be read. -/
theorem of_ahead {c : Cursor ι} {xs after : List ι} (h : c.ahead = xs ++ after) :
    ∃ d, c.Reads xs d ∧ d.ahead = after := by
  have rest : (c.advance xs.length).ahead = after := by simp [ahead_advance, h]
  exact ⟨c.advance xs.length, ⟨⟨rfl, rfl⟩, by rw [rest, h]⟩, rest⟩

/-- The cursor after a stretch is determined by the stretch. -/
theorem unique {c d e : Cursor ι} {xs : List ι} (h : c.Reads xs d) (k : c.Reads xs e) :
    d = e := by
  have same : d.position = e.position := by rw [h.position, k.position]
  exact Cursor.ext (h.items.trans k.items.symm) same (h.source.trans k.source.symm)

theorem eq_advance {c d : Cursor ι} {xs : List ι} (h : c.Reads xs d) :
    d = c.advance xs.length := by
  have bound := d.position_le
  rw [h.items] at bound
  refine Cursor.ext h.items ?_ h.source
  rw [position_advance, ← h.position, Nat.min_eq_left bound]

/-- A stretch in two parts is read through a cursor between them. -/
theorem split {c d : Cursor ι} {xs ys : List ι} (h : c.Reads (xs ++ ys) d) :
    ∃ e, c.Reads xs e ∧ e.Reads ys d := by
  have whole : c.ahead = xs ++ (ys ++ d.ahead) := by rw [h.ahead, List.append_assoc]
  obtain ⟨e, first, rest⟩ := of_ahead whole
  exact ⟨e, first, ⟨h.items.trans first.items.symm, h.source.trans first.source.symm⟩, rest⟩

theorem uncons {c d : Cursor ι} {x : ι} {xs : List ι} (h : c.Reads (x :: xs) d) :
    ∃ s, c.peek = some s ∧ s.item = x ∧ c.next.Reads xs d := by
  obtain ⟨s, peek, same⟩ := peek_of_ahead h.ahead
  have rest : c.next.ahead = xs ++ d.ahead := by
    have whole := h.ahead
    rw [ahead_of_peek peek] at whole
    exact (List.cons.inj whole).2
  exact ⟨s, peek, same, ⟨h.items, h.source⟩, rest⟩

end Reads

end Cursor

namespace Parser

section Steps

variable {p q : Parser ι α ε} {next : α → Parser ι β ε} {c d : Cursor ι} {a : α}
  {l : List Event}

theorem andThen_of_matched (first : p c = some ⟨.matched a d, l⟩) :
    p.andThen next c = (next a d).map (Reply.after l) :=
  branch_matched first

theorem andThen_of_noMatch (first : p c = some ⟨.noMatch, l⟩) :
    p.andThen next c = some ⟨.noMatch, l⟩ := by
  rw [andThen, branch_noMatch first, miss_apply]
  simp [Reply.after]

theorem orElse_of_matched (first : p c = some ⟨.matched a d, l⟩) :
    p.orElse q c = some ⟨.matched a d, l⟩ := by
  rw [orElse, branch_matched first, succeed_apply]
  simp [Reply.after]

theorem orElse_of_noMatch (first : p c = some ⟨.noMatch, l⟩) :
    p.orElse q c = (q c).map (Reply.after l) :=
  branch_noMatch first

theorem delimited_of_noMatch {opening : Parser ι β ε} {closing : Parser ι γ ε}
    (first : opening c = some ⟨.noMatch, l⟩) :
    p.delimited opening closing c = some ⟨.noMatch, l⟩ := by
  have opened : opening.keepRight p c = some ⟨.noMatch, l⟩ := andThen_of_noMatch first
  exact andThen_of_noMatch opened

theorem delimited_of_matched {opening : Parser ι β ε} {closing : Parser ι γ ε} {b : β} {z : γ}
    {start stop : Cursor ι} {m k : List Event} (first : opening c = some ⟨.matched b start, l⟩)
    (inside : p start = some ⟨.matched a stop, m⟩)
    (last : closing stop = some ⟨.matched z d, k⟩) :
    p.delimited opening closing c = some ⟨.matched a d, l ++ m ++ k⟩ := by
  have opened : opening.keepRight p c = some ⟨.matched a stop, l ++ m⟩ := by
    rw [keepRight, andThen_of_matched first, inside]
    rfl
  rw [delimited, keepLeft, andThen_of_matched opened, map_apply, last]
  rfl

end Steps

variable {test : ι → Bool} {c d : Cursor ι}

/-- A match is the next item, and it passes the test. -/
theorem reads_of_satisfy {x : ι} {log : List Event}
    (found : (satisfy test : Parser ι ι ε) c = some ⟨.matched x d, log⟩) :
    test x = true ∧ c.Reads [x] d := by
  rw [satisfy_apply] at found
  rcases peek : c.peek with _ | s
  · simp [peek] at found
  · by_cases passed : test s.item
    · obtain ⟨⟨rfl, rfl⟩, -⟩ : (s.item = x ∧ c.next = d) ∧ log = [] := by
        simpa [peek, passed] using found
      exact ⟨passed, .next peek⟩
    · simp [peek, passed] at found

theorem satisfy_of_passed {s : Spanned ι} (peek : c.peek = some s) (passed : test s.item = true) :
    (satisfy test : Parser ι ι ε) c = some ⟨.matched s.item c.next, []⟩ := by
  simp [satisfy_apply, peek, passed]

theorem satisfy_of_failed (failed : ∀ s, c.peek = some s → test s.item = false) :
    (satisfy test : Parser ι ι ε) c = some ⟨.noMatch, []⟩ := by
  rw [satisfy_apply]
  rcases peek : c.peek with _ | s
  · rfl
  · simp [failed s peek]

/-- A repetition reads stretches one after the other, up to a place where its body misses:
if each of them is read by the body, and none is empty, it finds what stands in each. -/
theorem repeated_of_reads {κ : Type} {body : Parser ι α ε} {stretch : κ → List ι}
    {value : κ → α} {xs : List κ} {c d : Cursor ι}
    (found : ∀ x ∈ xs, ∀ e f, e.Reads (stretch x) f → body e = some ⟨.matched (value x) f, []⟩)
    (long : ∀ x ∈ xs, stretch x ≠ []) (reads : c.Reads (xs.flatMap stretch) d)
    (missed : body d = some ⟨.noMatch, []⟩) (n : Nat) :
    body.repeated n c = some ⟨enough n (xs.map value) d, []⟩ := by
  induction xs generalizing c n with
  | nil =>
    obtain rfl : c = d := (Cursor.Reads.refl c).unique reads
    rw [repeated_apply, missed]
    simp
  | cons x xs ih =>
    rw [List.flatMap_cons] at reads
    obtain ⟨e, first, rest⟩ := reads.split
    have round := found x List.mem_cons_self c e first
    have moved : c.position < e.position := by
      have place := first.position
      have pos := List.length_pos_iff.mpr (long x List.mem_cons_self)
      omega
    have tail := ih (fun y mem => found y (List.mem_cons_of_mem x mem))
      (fun y mem => long y (List.mem_cons_of_mem x mem)) rest (n - 1)
    have more : (enough n (value x :: xs.map value) d : Outcome ι (List α) ε) =
        (enough (n - 1) (xs.map value) d).map (value x :: ·) :=
      enough_append n [value x] (xs.map value) d
    rw [repeated_apply, round]
    simp only [if_pos moved]
    rw [tail, List.map_cons, more, Option.map_some, List.nil_append]

end Parser

end SpannedParsing
