import SpannedParsing.Parser.Alternatives
import SpannedParsing.Parser.Commitment
import SpannedParsing.Parser.SeparatedList
import SpannedParsing.Parser.Shaping

/-!
# Parsers that call each other

Recursive parsers are given by a step: parsers for all rules, built from parsers
for all rules. `nested` applies the step a number of times, and calls that are
nested deeper give no reply.

`Approximates` orders parsers by how often they reply. Every combinator keeps
this order, so a deeper nesting keeps every reply of a shallower one
(`nested_mono`): the depth bounds the work and does not change an answer.
-/
namespace SpannedParsing.Parser

variable {ρ ι α β σ ε : Type}

/-- The parser of a rule, for at most `depth` calls inside each other. -/
def nested (step : (ρ → Parser ι α ε) → ρ → Parser ι α ε) : Nat → ρ → Parser ι α ε
  | 0, _, _ => none
  | depth + 1, r, c => step (nested step depth) r c

@[simp] theorem nested_zero (step : (ρ → Parser ι α ε) → ρ → Parser ι α ε) (r : ρ) (c : Cursor ι) :
    nested step 0 r c = none := rfl

/-- Every reply of the first parser is a reply of the second one. -/
def Approximates (p q : Parser ι α ε) : Prop := ∀ c r, p c = some r → q c = some r

namespace Approximates

theorem refl (p : Parser ι α ε) : Approximates p p := fun _ _ h => h

theorem branch {p p' : Parser ι α ε} {hit hit' : α → Parser ι β ε} {other other' : Parser ι β ε}
    (hp : Approximates p p') (hh : ∀ a, Approximates (hit a) (hit' a))
    (ho : Approximates other other') :
    Approximates (p.branch hit other) (p'.branch hit' other') := by
  intro c r h
  rcases found : p c with _ | ⟨⟨a, rest⟩ | _ | ⟨e, s⟩, log⟩
  · simp [branch_none found] at h
  · rw [branch_matched found, Option.map_eq_some_iff] at h
    obtain ⟨x, hx, rfl⟩ := h
    rw [branch_matched (hp _ _ found), hh a _ _ hx]
    rfl
  · rw [branch_noMatch found, Option.map_eq_some_iff] at h
    obtain ⟨x, hx, rfl⟩ := h
    rw [branch_noMatch (hp _ _ found), ho _ _ hx]
    rfl
  · rw [branch_errored found] at h
    rw [branch_errored (hp _ _ found), h]

theorem andThen {p p' : Parser ι α ε} {next next' : α → Parser ι β ε} (hp : Approximates p p')
    (hn : ∀ a, Approximates (next a) (next' a)) :
    Approximates (p.andThen next) (p'.andThen next') :=
  hp.branch hn (refl _)

theorem orElse {p p' q q' : Parser ι α ε} (hp : Approximates p p') (hq : Approximates q q') :
    Approximates (p.orElse q) (p'.orElse q') :=
  hp.branch (fun _ => refl _) hq

theorem map {p p' : Parser ι α ε} (f : α → β) (hp : Approximates p p') :
    Approximates (p.map f) (p'.map f) :=
  hp.andThen fun _ => refl _

theorem firstOf {κ : Type} {f f' : κ → Parser ι α ε} (ks : List κ)
    (h : ∀ k ∈ ks, Approximates (f k) (f' k)) :
    Approximates (Parser.firstOf (ks.map f)) (Parser.firstOf (ks.map f')) := by
  induction ks with
  | nil => exact refl _
  | cons k ks ih =>
    exact (h k (by simp)).orElse (ih fun j hj => h j (by simp [hj]))

theorem require {p p' : Parser ι α ε} (error : ε) (hp : Approximates p p') :
    Approximates (p.require error) (p'.require error) :=
  hp.orElse (refl _)

theorem check {p p' : Parser ι α ε} (test : α → Bool) (hp : Approximates p p') :
    Approximates (p.check test) (p'.check test) :=
  hp.andThen fun _ => refl _

theorem spanned {p p' : Parser ι α ε} (hp : Approximates p p') :
    Approximates p.spanned p'.spanned := fun c =>
  (hp.andThen fun _ => refl _) c

theorem gather {p p' : Parser ι α ε} (hp : Approximates p p') (n : Nat) (c : Cursor ι)
    (values : List α) (log : List Event) (r : Reply ι (List α) ε)
    (h : Parser.gather p n c values log = some r) : Parser.gather p' n c values log = some r := by
  induction c using Cursor.inductAhead generalizing values log with
  | ind c ih =>
    rw [gather.eq_def] at h ⊢
    rcases found : p c with _ | ⟨⟨a, rest⟩ | _ | ⟨e, s⟩, events⟩
    · simp [found] at h
    · simp only [found, hp _ _ found] at h ⊢
      by_cases moved : c.position < rest.position
      · simp only [moved, if_true] at h ⊢
        exact ih rest moved _ _ h
      · simpa only [moved, if_false] using h
    · simpa only [found, hp _ _ found] using h
    · simpa only [found, hp _ _ found] using h

theorem repeated {p p' : Parser ι α ε} (n : Nat) (hp : Approximates p p') :
    Approximates (p.repeated n) (p'.repeated n) := fun c r h =>
  hp.gather n c [] [] r h

theorem keepRight {p p' : Parser ι α ε} {q q' : Parser ι β ε} (hp : Approximates p p')
    (hq : Approximates q q') : Approximates (p.keepRight q) (p'.keepRight q') :=
  hp.andThen fun _ => hq

theorem skipIf {p p' : Parser ι α ε} (allowed : Bool) (hp : Approximates p p') :
    Approximates (Parser.skipIf allowed p) (Parser.skipIf allowed p') := by
  cases allowed with
  | false => exact refl _
  | true => exact hp.branch (fun _ => refl _) (refl _)

theorem separated {p p' : Parser ι α ε} {s s' : Parser ι σ ε} (form : ListForm)
    (hp : Approximates p p') (hs : Approximates s s') :
    Approximates (p.separated s form) (p'.separated s' form) := fun c =>
  ((hs.skipIf form.leading).andThen fun _ =>
    hp.branch
      (fun _ => ((hs.keepRight hp).repeated _).branch
        (fun _ => (hs.skipIf form.trailing).map _) (refl _))
      (refl _)) c

end Approximates

/-- A step that keeps the order of parsers. -/
def KeepsOrder (step : (ρ → Parser ι α ε) → ρ → Parser ι α ε) : Prop :=
  ∀ rules rules', (∀ r, Approximates (rules r) (rules' r)) →
    ∀ r, Approximates (step rules r) (step rules' r)

/-- More depth keeps every reply. -/
theorem nested_mono {step : (ρ → Parser ι α ε) → ρ → Parser ι α ε} (h : KeepsOrder step)
    {m n : Nat} (le : m ≤ n) (r : ρ) : Approximates (nested step m r) (nested step n r) := by
  induction m generalizing n r with
  | zero => intro c x hx; simp at hx
  | succ m ih =>
    cases n with
    | zero => omega
    | succ n => exact h _ _ (fun r => ih (by omega) r) r

end SpannedParsing.Parser
