import SpannedParsing.Proofs.Invariant

/-!
# A missed requirement ends the parse

A required part that misses is reported and fails with its error. Nothing runs
after that: no alternative, no further round, no separator behind a list. So the
report is the last event of the whole log, there is no second one, and the
outcome is the error of that requirement at the span in the report. Where the
grammar raises no errors of its own, there are no other errors.

`Traceable` says how a reply can come about. It is the invariant that every
combinator keeps.
-/
namespace SpannedParsing

variable {ρ ι ε : Type}

/-- The ways in which a reply at a cursor comes about. Errors are either raised
by the grammar itself, or those of a required part that missed at a cursor `d`
among the same items. -/
inductive Traceable (required : ε → Prop) (raised : ε → Span → Prop) :
    Cursor ι → Outcome ι Unit ε → List Event → Prop
  | matched {c d : Cursor ι} {log : List Event} (quiet : Quiet log)
      (same : d.items = c.items) : Traceable required raised c (.matched () d) log
  | missed {c : Cursor ι} {log : List Event} (quiet : Quiet log) :
    Traceable required raised c .noMatch log
  | raised {c : Cursor ι} {e : ε} {s : Span} {log : List Event} (quiet : Quiet log)
      (own : raised e s) : Traceable required raised c (.errored e s) log
  | committed {c d : Cursor ι} {e : ε} {log : List Event} (quiet : Quiet log)
      (node : required e) (same : d.items = c.items) :
    Traceable required raised c (.errored e d.lastSpan)
      (log ++ [.requirementMissed d.position d.lastSpan])

namespace Traceable

variable {required : ε → Prop} {raised : ε → Span → Prop}

/-- A quiet beginning among the same items changes nothing about the end. -/
theorem after {c d : Cursor ι} {o : Outcome ι Unit ε} {l m : List Event} (quiet : Quiet l)
    (same : d.items = c.items) (h : Traceable required raised d o m) :
    Traceable required raised c o (l ++ m) := by
  cases h with
  | matched quiet' same' => exact .matched (quiet.append quiet') (same'.trans same)
  | missed quiet' => exact .missed (quiet.append quiet')
  | raised quiet' own => exact .raised (quiet.append quiet') own
  | committed quiet' node same' =>
    rw [← List.append_assoc]
    exact .committed (quiet.append quiet') node (same'.trans same)

theorem composes :
    ReplyProperty.Composes (Traceable required raised : ReplyProperty ι ε) where
  stay c := .matched .nil rfl
  advance c n := .matched .nil rfl
  miss c := .missed .nil
  short c n := .missed (by simp [Quiet, Event.isRequirement])
  stall c := .matched (by simp [Quiet, Event.isRequirement]) rfl
  goOn first second := by
    cases first with
    | matched quiet same => exact second.after quiet same
  retry first second := by
    cases first with
    | missed quiet => exact second.after quiet rfl

end Traceable

/-- Where an error is reported depends on the items and the position alone. -/
theorem Cursor.lastSpan_eq_moveTo {c d : Cursor ι} (same : d.items = c.items) :
    d.lastSpan = (c.moveTo d.position).lastSpan := by
  have bound := d.position_le
  rw [same] at bound
  have stays : min d.position c.items.size = d.position := by omega
  unfold lastSpan previous startSpan
  simp only [items_moveTo, position_moveTo, stays, same]

namespace Grammar

/-- What commitment means for a reply of a grammar `g` at a cursor. At most one requirement is
missed; it is the last event, and the outcome is its error at the span of the item in front of
the place where it was missed. Without errors of its own, a grammar fails in no other way, and
without required parts as well it never fails. -/
structure Committed (table : ρ → Grammar ρ ι ε) (g : Grammar ρ ι ε) (c : Cursor ι)
    (r : Reply ι (Value ι) ε) : Prop where
  single : r.log.countP Event.isRequirement ≤ 1
  last : ∀ position span, .requirementMissed position span ∈ r.log →
    ∃ before p e, r.log = before ++ [.requirementMissed position span] ∧
      r.outcome = .errored e span ∧ Reaches table g (.require p e) ∧
      position ≤ c.items.size ∧ span = (c.moveTo position).lastSpan
  traced : (∀ f, Reaches table g (.answer f) → ∀ d e s, f d ≠ .errored e s) →
    ∀ e s, r.outcome = .errored e s →
      ∃ before position, r.log = before ++ [.requirementMissed position s]
  never : (∀ p e, ¬ Reaches table g (.require p e)) →
    (∀ f, Reaches table g (.answer f) → ∀ d e s, f d ≠ .errored e s) →
    ∀ e s, r.outcome ≠ .errored e s

/-- An error of a required part of the grammar. -/
def Requires (table : ρ → Grammar ρ ι ε) (g : Grammar ρ ι ε) (e : ε) : Prop :=
  ∃ p, Reaches table g (.require p e)

/-- An error that the grammar computes on its own. -/
def Raises (table : ρ → Grammar ρ ι ε) (g : Grammar ρ ι ε) (e : ε) (s : Span) : Prop :=
  ∃ f d, Reaches table g (.answer f) ∧ f d = .errored e s

/-- A reply on the way to which no requirement was missed. -/
theorem committed_of_quiet {table : ρ → Grammar ρ ι ε} {g : Grammar ρ ι ε} {c : Cursor ι}
    {r : Reply ι (Value ι) ε} (quiet : Quiet r.log)
    (own : ∀ e s, r.outcome = .errored e s → Raises table g e s) : Committed table g c r where
  single := by
    rw [quiet.countP_eq_zero]
    omega
  last position span h := absurd h (quiet.not_mem position span)
  traced silent e s h := by
    obtain ⟨f, d, reached, raised⟩ := own e s h
    exact absurd raised (silent f reached d e s)
  never _ silent e s h := by
    obtain ⟨f, d, reached, raised⟩ := own e s h
    exact silent f reached d e s raised

/-- A reply that ends with the requirement missed at the cursor `d`. -/
theorem committed_of_requirement {table : ρ → Grammar ρ ι ε} {g p : Grammar ρ ι ε}
    {c d : Cursor ι} {e : ε} {before : List Event} (quiet : Quiet before)
    (reached : Reaches table g (.require p e)) (same : d.items = c.items) :
    Committed table g c
      ⟨.errored e d.lastSpan, before ++ [.requirementMissed d.position d.lastSpan]⟩ where
  single := by
    rw [List.countP_append, quiet.countP_eq_zero]
    simp [Event.isRequirement]
  last position span h := by
    have bound := d.position_le
    rw [same] at bound
    rcases List.mem_append.mp h with h | h
    · exact absurd h (quiet.not_mem position span)
    · obtain ⟨rfl, rfl⟩ : position = d.position ∧ span = d.lastSpan := by simpa using h
      exact ⟨before, p, e, rfl, rfl, reached, bound, Cursor.lastSpan_eq_moveTo same⟩
  traced _ e' s h := by
    obtain ⟨rfl, rfl⟩ := Outcome.errored.inj h
    exact ⟨before, d.position, rfl⟩
  never none _ _ _ _ := none p e reached

/-- The four parts of commitment are read off the way in which the reply came
about. -/
theorem committed_of_traceable {table : ρ → Grammar ρ ι ε} {g : Grammar ρ ι ε}
    {c : Cursor ι} {r : Reply ι (Value ι) ε}
    (traceable : Traceable (Requires table g) (Raises table g) c r.outcome.bare r.log) :
    Committed table g c r := by
  obtain ⟨⟨value, d⟩ | _ | ⟨e, s⟩, log⟩ := r
  · cases traceable with
    | matched quiet _ => exact committed_of_quiet quiet (fun _ _ h => nomatch h)
  · cases traceable with
    | missed quiet => exact committed_of_quiet quiet (fun _ _ h => nomatch h)
  · cases traceable with
    | raised quiet own =>
      refine committed_of_quiet quiet ?_
      intro e' s' h
      obtain ⟨rfl, rfl⟩ := Outcome.errored.inj h
      exact own
    | committed quiet node same =>
      obtain ⟨p, reached⟩ := node
      exact committed_of_requirement quiet reached same

theorem traceable_run [DecidableEq ι] {table : ρ → Grammar ρ ι ε} {g : Grammar ρ ι ε}
    (stays : ∀ f, Reaches table g (.answer f) →
      ∀ c value d, f c = .matched value d → d.items = c.items) (depth : Nat) :
    (run table depth g).Ensures (Traceable (Requires table g) (Raises table g)) := by
  refine ensures_run Traceable.composes (ownReplies_of_reaches ?_ ?_) (.refl table g) depth
  · intro p e reached c r found
    obtain rfl := Option.some.inj found
    show Traceable _ _ c _ ([] ++ [_])
    exact .committed .nil ⟨p, reached⟩ rfl
  · intro f reached
    apply Parser.ensures_ofOutcome
    intro c
    rcases answered : f c with ⟨value, d⟩ | _ | ⟨e, s⟩
    · exact .matched .nil (stays f reached c value d answered)
    · exact .missed .nil
    · exact .raised .nil ⟨f, c, reached, answered⟩

/-- Commitment is final and traceable, for every reply of every grammar whose
own outcomes stay on the items that they are given. -/
theorem commitment_final [DecidableEq ι] {table : ρ → Grammar ρ ι ε} {g : Grammar ρ ι ε}
    (stays : ∀ f, Reaches table g (.answer f) →
      ∀ c value d, f c = .matched value d → d.items = c.items)
    {depth : Nat} {c : Cursor ι} {r : Reply ι (Value ι) ε}
    (found : run table depth g c = some r) : Committed table g c r :=
  committed_of_traceable (traceable_run stays depth c r found)

/-- Blocks of which the last bracket is not closed: two blocks are read, and the
missing bracket is the error of the whole list. -/
theorem commitment_final_blocks : ∃ r,
    run (fun _ => block) 3 blocks unclosedBlocks = some r ∧
      r.outcome.isErrored = true ∧ Committed (fun _ => block) blocks unclosedBlocks r := by
  have failed : ((run (fun _ => block) 3 blocks unclosedBlocks).any fun r =>
      r.outcome.isErrored) = true := by decide +kernel
  obtain ⟨r, found, errored⟩ := (Option.any_eq_true _ _).mp failed
  refine ⟨r, found, errored, commitment_final ?_ found⟩
  intro f reached c value d matched
  obtain ⟨n, taken⟩ := onlyCounts_of_reaches reached
  obtain rfl := advance_of_take taken matched
  rfl

end Grammar

end SpannedParsing
