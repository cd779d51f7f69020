import SpannedParsing.Event
import SpannedParsing.Outcome

/-!
# Parsers

A parser takes a cursor and replies with an outcome and the events of its own
run. Grammars may refer to themselves, so a parser may also give no reply:
`none` stands for a parse that was cut off, and it is neither a miss nor an
error.

All ways to combine parsers rest on one operation. `branch` runs a parser and
goes on by what it found; an error ends the parse at once, and events are kept
in the order of the runs, also those of a parser that missed.
-/
namespace SpannedParsing

structure Reply (ι α ε : Type) where
  outcome : Outcome ι α ε
  log : List Event

/-- A parser for items `ι` with values `α` and errors `ε`. -/
abbrev Parser (ι α ε : Type) : Type := Cursor ι → Option (Reply ι α ε)

namespace Reply

variable {ι α β ε : Type}

/-- An outcome without events. -/
def silent (outcome : Outcome ι α ε) : Reply ι α ε := ⟨outcome, []⟩

/-- Put earlier events in front. -/
def after (log : List Event) (reply : Reply ι α ε) : Reply ι α ε :=
  ⟨reply.outcome, log ++ reply.log⟩

@[simp] theorem outcome_silent (o : Outcome ι α ε) : (silent o).outcome = o := rfl

@[simp] theorem log_silent (o : Outcome ι α ε) : (silent o).log = [] := rfl

@[simp] theorem outcome_after (log : List Event) (r : Reply ι α ε) :
    (r.after log).outcome = r.outcome := rfl

@[simp] theorem log_after (log : List Event) (r : Reply ι α ε) :
    (r.after log).log = log ++ r.log := rfl

@[simp] theorem after_nil (r : Reply ι α ε) : r.after [] = r := rfl

@[simp] theorem after_after (l m : List Event) (r : Reply ι α ε) :
    (r.after m).after l = r.after (l ++ m) := by simp [after]

theorem after_nil_eq_id : (after [] : Reply ι α ε → Reply ι α ε) = id := rfl

@[simp] theorem after_silent (log : List Event) (o : Outcome ι α ε) :
    (silent o).after log = ⟨o, log⟩ := by simp [after, silent]

end Reply

namespace Parser

variable {ι α β γ ε : Type}

/-- The parser that replies with a given outcome and reports nothing. -/
def ofOutcome (f : Cursor ι → Outcome ι α ε) : Parser ι α ε := fun cursor =>
  some (.silent (f cursor))

/-- Match without consuming anything. -/
def succeed (value : α) : Parser ι α ε := ofOutcome fun cursor => .matched value cursor

def miss : Parser ι α ε := ofOutcome fun _ => .noMatch

/-- Run `p`, and go on with `hit` after a match and with `other`, at the same
cursor, after a miss. -/
def branch (p : Parser ι α ε) (hit : α → Parser ι β ε) (other : Parser ι β ε) :
    Parser ι β ε := fun cursor =>
  match p cursor with
  | none => none
  | some ⟨.matched value rest, log⟩ => (hit value rest).map (Reply.after log)
  | some ⟨.noMatch, log⟩ => (other cursor).map (Reply.after log)
  | some ⟨.errored error span, log⟩ => some ⟨.errored error span, log⟩

/-- Go on after a match. -/
def andThen (p : Parser ι α ε) (next : α → Parser ι β ε) : Parser ι β ε :=
  p.branch next miss

/-- Try another parser at the same cursor after a miss. -/
def orElse (p q : Parser ι α ε) : Parser ι α ε :=
  p.branch succeed q

/-- Change the value of a match. -/
def map (f : α → β) (p : Parser ι α ε) : Parser ι β ε :=
  p.andThen fun value => succeed (f value)

@[simp] theorem ofOutcome_apply (f : Cursor ι → Outcome ι α ε) (c : Cursor ι) :
    (ofOutcome f : Parser ι α ε) c = some ⟨f c, []⟩ := rfl

@[simp] theorem succeed_apply (a : α) (c : Cursor ι) :
    (succeed a : Parser ι α ε) c = some ⟨.matched a c, []⟩ := rfl

@[simp] theorem miss_apply (c : Cursor ι) : (miss : Parser ι α ε) c = some ⟨.noMatch, []⟩ := rfl

section Branch

variable {p : Parser ι α ε} {hit : α → Parser ι β ε} {other : Parser ι β ε} {c : Cursor ι}

theorem branch_none (h : p c = none) : p.branch hit other c = none := by simp [branch, h]

theorem branch_matched {a : α} {rest : Cursor ι} {log : List Event}
    (h : p c = some ⟨.matched a rest, log⟩) :
    p.branch hit other c = (hit a rest).map (Reply.after log) := by simp [branch, h]

theorem branch_noMatch {log : List Event} (h : p c = some ⟨.noMatch, log⟩) :
    p.branch hit other c = (other c).map (Reply.after log) := by simp [branch, h]

theorem branch_errored {e : ε} {s : Span} {log : List Event}
    (h : p c = some ⟨.errored e s, log⟩) :
    p.branch hit other c = some ⟨.errored e s, log⟩ := by simp [branch, h]

end Branch

/-- Changing the value keeps everything else of a reply. -/
theorem map_apply (f : α → β) (p : Parser ι α ε) (c : Cursor ι) :
    p.map f c = (p c).map fun r => ⟨r.outcome.map f, r.log⟩ := by
  rcases h : p c with _ | ⟨_ | _ | _, log⟩ <;> simp [map, andThen, branch, h, Reply.after]

@[simp] theorem map_id (p : Parser ι α ε) : p.map (fun a => a) = p := by
  funext c
  rw [map_apply]
  rcases p c with _ | ⟨_ | _ | _, log⟩ <;> rfl

theorem map_map (f : α → β) (g : β → γ) (p : Parser ι α ε) :
    (p.map f).map g = p.map fun a => g (f a) := by
  funext c
  simp only [map_apply, Option.map_map, Function.comp_def, Outcome.map_map]

@[simp] theorem succeed_andThen (a : α) (next : α → Parser ι β ε) :
    (succeed a : Parser ι α ε).andThen next = next a := by
  funext c
  simp [andThen, branch, Reply.after_nil_eq_id]

@[simp] theorem miss_orElse (q : Parser ι α ε) : miss.orElse q = q := by
  funext c
  simp [orElse, branch, Reply.after_nil_eq_id]

@[simp] theorem orElse_miss (p : Parser ι α ε) : p.orElse miss = p := by
  funext c
  rcases h : p c with _ | ⟨_ | _ | _, log⟩ <;> simp [orElse, branch, h, Reply.after]

theorem andThen_assoc (p : Parser ι α ε) (f : α → Parser ι β ε) (g : β → Parser ι γ ε) :
    (p.andThen f).andThen g = p.andThen fun a => (f a).andThen g := by
  funext c
  rcases h : p c with _ | ⟨_ | _ | _, log⟩ <;> simp [andThen, branch, h, Reply.after]
  rename_i a rest
  rcases h' : f a rest with _ | ⟨_ | _ | _, log'⟩ <;> simp [Reply.after]
  rename_i b rest'
  cases g b rest' <;> simp

theorem map_andThen (f : β → γ) (p : Parser ι α ε) (next : α → Parser ι β ε) :
    (p.andThen next).map f = p.andThen fun a => (next a).map f :=
  andThen_assoc p next fun b => succeed (f b)

theorem orElse_assoc (p q r : Parser ι α ε) :
    (p.orElse q).orElse r = p.orElse (q.orElse r) := by
  funext c
  rcases h : p c with _ | ⟨_ | _ | _, log⟩ <;> simp [orElse, branch, h, Reply.after]
  rcases h' : q c with _ | ⟨_ | _ | _, log'⟩ <;> simp [Reply.after]
  cases r c <;> simp

end Parser

end SpannedParsing
