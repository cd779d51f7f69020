import SpannedParsing.Proofs.Coupling
import SpannedParsing.Proofs.Invariant
import SpannedParsing.Value.Shaping

/-!
# Values do not decide what is recognized

What a parser recognizes is its reply without the value: the kind of outcome, the
cursor after a match, the error with its span, and the events. Without tests and
contexts a grammar never looks at a value, so it recognizes the same however values
are shaped on the way: by which parts of a sequence are kept, by what stands for a
part that is missing, by functions, constants and spans.

`SameShape` relates grammars that differ in these choices alone.
-/
namespace SpannedParsing

variable {ρ ι α β ε : Type}

def Reply.bare (r : Reply ι α ε) : Reply ι Unit ε := ⟨r.outcome.bare, r.log⟩

namespace Parser

/-- The parsers recognize the same: at every cursor their replies differ in nothing
but the value of a match. -/
def RecognizeSame (p : Parser ι α ε) (q : Parser ι β ε) : Prop :=
  ∀ c, (p c).map Reply.bare = (q c).map Reply.bare

namespace RecognizeSame

theorem refl (p : Parser ι α ε) : RecognizeSame p p := fun _ => rfl

theorem symm {p : Parser ι α ε} {q : Parser ι β ε} (h : RecognizeSame p q) :
    RecognizeSame q p := fun c => (h c).symm

theorem map (f : α → β) (p : Parser ι α ε) : RecognizeSame (p.map f) p := by
  intro c
  rw [map_apply, Option.map_map]
  congr 1
  funext r
  simp [Reply.bare]

/-- A captured span stands in the value alone. -/
theorem spanned (p : Parser ι α ε) : RecognizeSame p.spanned p := by
  intro c
  rw [spanned_apply, Option.map_map]
  congr 1
  funext r
  obtain ⟨_ | _ | _, log⟩ := r <;> rfl

theorem trans {γ : Type} {p : Parser ι α ε} {q : Parser ι β ε} {r : Parser ι γ ε}
    (h : RecognizeSame p q) (k : RecognizeSame q r) : RecognizeSame p r := fun c =>
  (h c).trans (k c)

/-- Parsers that recognize the same are coupled at equal cursors, whatever their
values. -/
theorem coupled {p : Parser ι α ε} {q : Parser ι β ε} (h : RecognizeSame p q) :
    Coupled (.within fun _ => True) (fun _ _ => True) p q := by
  rintro c _ ⟨rfl, -⟩
  have same := h c
  generalize p c = x at same ⊢
  generalize q c = y at same ⊢
  rcases x with _ | ⟨o, l⟩ <;> rcases y with _ | ⟨o', m⟩
  · exact .none
  · exact nomatch same
  · exact nomatch same
  · obtain ⟨outcomes, rfl⟩ : o.bare = o'.bare ∧ l = m := by
      simpa [Reply.bare] using same
    rcases o with ⟨a, rest⟩ | _ | ⟨e, s⟩ <;> rcases o' with ⟨b, rest'⟩ | _ | ⟨e', s'⟩ <;>
      cases outcomes
    · exact .some (.matched trivial ⟨rfl, trivial⟩ rfl)
    · exact .some (.noMatch rfl)
    · exact .some (.errored ⟨rfl, rfl⟩)

end RecognizeSame

theorem Coupled.recognizeSame {V : α → β → Prop} {p : Parser ι α ε} {q : Parser ι β ε}
    (h : Coupled (.within fun _ => True) V p q) : RecognizeSame p q := by
  intro c
  have replies := h c c ⟨rfl, trivial⟩
  generalize p c = x at replies ⊢
  generalize q c = y at replies ⊢
  cases replies with
  | none => rfl
  | some replies =>
    cases replies with
    | matched _ rest logs =>
      rw [rest.1, logs]
      rfl
    | noMatch logs =>
      rw [logs]
      rfl
    | errored failed =>
      rw [failed.1, failed.2]
      rfl

end Parser

namespace Grammar

/-- Grammars of the same shape, without tests and contexts. They may differ in how two
values are joined, in what stands for a part that is missing, and in the functions,
constants and spans around any part. -/
inductive SameShape : Grammar ρ ι ε → Grammar ρ ι ε → Prop
  | just (x : ι) : SameShape (.just x) (.just x)
  | oneOf (xs : List ι) : SameShape (.oneOf xs) (.oneOf xs)
  | satisfy (test : ι → Bool) : SameShape (.satisfy test) (.satisfy test)
  | sequence (xs : List ι) : SameShape (.sequence xs) (.sequence xs)
  | finish : SameShape .finish .finish
  | both {p p' q q' : Grammar ρ ι ε} (joining joining' : Joining) (first : SameShape p p')
      (second : SameShape q q') : SameShape (.both joining p q) (.both joining' p' q')
  | orElse {p p' q q' : Grammar ρ ι ε} (first : SameShape p p') (second : SameShape q q') :
    SameShape (.orElse p q) (.orElse p' q')
  | noAlternative : SameShape (.firstOf []) (.firstOf [])
  | alternative {p p' : Grammar ρ ι ε} {ps ps' : List (Grammar ρ ι ε)}
      (first : SameShape p p') (others : SameShape (.firstOf ps) (.firstOf ps')) :
    SameShape (.firstOf (p :: ps)) (.firstOf (p' :: ps'))
  | maybe {p p' : Grammar ρ ι ε} (fallback fallback' : Fallback ι) (part : SameShape p p') :
    SameShape (.maybe fallback p) (.maybe fallback' p')
  | require {p p' : Grammar ρ ι ε} (error : ε) (part : SameShape p p') :
    SameShape (.require p error) (.require p' error)
  | repeated {p p' : Grammar ρ ι ε} (atLeast : Nat) (part : SameShape p p') :
    SameShape (.repeated p atLeast) (.repeated p' atLeast)
  | separated {p p' q q' : Grammar ρ ι ε} (form : ListForm) (item : SameShape p p')
      (separator : SameShape q q') : SameShape (.separated p q form) (.separated p' q' form)
  | call (rule : ρ) : SameShape (.call rule) (.call rule)
  | mapLeft {p p' : Grammar ρ ι ε} (f : Value ι → Value ι) (part : SameShape p p') :
    SameShape (.map f p) p'
  | mapRight {p p' : Grammar ρ ι ε} (f : Value ι → Value ι) (part : SameShape p p') :
    SameShape p (.map f p')
  | spannedLeft {p p' : Grammar ρ ι ε} (part : SameShape p p') : SameShape (.spanned p) p'
  | spannedRight {p p' : Grammar ρ ι ε} (part : SameShape p p') : SameShape p (.spanned p')

variable [DecidableEq ι]

/-- Grammars of the same shape recognize the same, if their rules do. -/
theorem recognizeSame_denote {rules rules' : ρ → Parser ι (Value ι) ε}
    (called : ∀ r, Parser.RecognizeSame (rules r) (rules' r)) {g g' : Grammar ρ ι ε}
    (shape : SameShape g g') :
    Parser.RecognizeSame (denote rules g) (denote rules' g') := by
  have hK := Coupling.within_composes (ε := ε) fun _ : Cursor ι => True
  induction shape with
  | just | oneOf | satisfy | sequence | finish | noAlternative => exact .refl _
  | both joining joining' first second hp hq =>
    refine (hp.coupled.andThen (W := fun _ _ => True) hK ?_).recognizeSame
    intro a a' _
    exact hq.coupled.map fun _ _ _ => trivial
  | orElse first second hp hq => exact (hp.coupled.orElse hK hq.coupled).recognizeSame
  | alternative first others hp hps =>
    rw [denote_firstOf] at hps ⊢
    rw [denote_firstOf] at hps ⊢
    exact (hp.coupled.orElse hK hps.coupled).recognizeSame
  | maybe fallback fallback' part hp =>
    refine (hp.coupled.branch (W := fun _ _ => True) hK ?_ ?_).recognizeSame
    · intro a a' _
      exact Parser.coupled_succeed hK trivial
    · exact Parser.coupled_succeed hK trivial
  | require error part hp =>
    have unmet := Parser.RecognizeSame.refl (Parser.unmet error : Parser ι (Value ι) ε)
    exact (hp.coupled.orElse hK unmet.coupled).recognizeSame
  | repeated n part hp =>
    refine (Parser.RecognizeSame.map _ _).trans (.trans ?_ (Parser.RecognizeSame.map _ _).symm)
    exact (hp.coupled.repeated hK n).recognizeSame
  | separated form item separator hp hq =>
    refine (Parser.RecognizeSame.map _ _).trans (.trans ?_ (Parser.RecognizeSame.map _ _).symm)
    exact (hp.coupled.separated hK form hq.coupled).recognizeSame
  | call r => exact called r
  | mapLeft f part hp => exact (Parser.RecognizeSame.map f _).trans hp
  | mapRight f part hp => exact hp.trans (Parser.RecognizeSame.map f _).symm
  | spannedLeft part hp =>
    exact (Parser.RecognizeSame.map _ _).trans ((Parser.RecognizeSame.spanned _).trans hp)
  | spannedRight part hp =>
    exact (hp.trans (Parser.RecognizeSame.spanned _).symm).trans (Parser.RecognizeSame.map _ _).symm

/-- Rules of the same shape recognize the same, however deep calls may be nested. -/
theorem recognizeSame_rule {table table' : ρ → Grammar ρ ι ε}
    (rules : ∀ r, SameShape (table r) (table' r)) (depth : Nat) (r : ρ) :
    Parser.RecognizeSame (run table depth (.call r)) (run table' depth (.call r)) := by
  induction depth generalizing r with
  | zero => exact fun _ => rfl
  | succ depth ih => exact recognizeSame_denote ih (rules r)

/-- Two grammars of the same shape, over rules of the same shape, recognize the same:
they reply at the same cursors, and with the same kind of outcome, the same cursor
after a match, the same error and span, and the same events. -/
theorem recognition_eq {table table' : ρ → Grammar ρ ι ε}
    (rules : ∀ r, SameShape (table r) (table' r)) {g g' : Grammar ρ ι ε}
    (shape : SameShape g g') (depth : Nat) (c : Cursor ι) :
    (run table depth g c).map Reply.bare = (run table' depth g' c).map Reply.bare :=
  recognizeSame_denote (recognizeSame_rule rules depth) shape c

/-- How deep brackets are nested, where each of them has to be closed. -/
def bracketDepth : Grammar Unit Item String :=
  .maybe (.default (.int 0)) (.map Value.increased (delimited (.call ())
    (.just (.char '(')) (.require (.just (.char ')')) "unclosed")))

/-- The same brackets with all that is found between them. -/
def bracketTree : Grammar Unit Item String :=
  .maybe .option (.both .pair (.both .cons (.just (.char '(')) (.spanned (.call ())))
    (.require (.just (.char ')')) "unclosed"))

theorem sameShape_brackets : SameShape bracketDepth bracketTree := by
  refine .maybe _ _ (.mapLeft _ (.both _ _ (.both _ _ (.just _) ?_) ?_))
  · exact .spannedRight (.call ())
  · exact .require "unclosed" (.just _)

/-- At least two brackets with commas between them. -/
def bracketList : Grammar Unit Item String :=
  .separated (.call ()) (.just (.char ',')) { atLeast := 2 }

/-- Two brackets, of which the second one is not closed. -/
def unclosedBrackets : Cursor Item := startOf "(()),((".toList (by decide)

/-- Counting and collecting miss the closing bracket at the same place. -/
theorem recognition_eq_brackets :
    ((run (fun _ => bracketDepth) 4 bracketList unclosedBrackets).any fun r =>
      r.outcome.isErrored) = true ∧
    (run (fun _ => bracketDepth) 4 bracketList unclosedBrackets).map Reply.bare =
      (run (fun _ => bracketTree) 4 (.spanned bracketList) unclosedBrackets).map Reply.bare := by
  have shape : SameShape bracketList (.spanned bracketList) :=
    .spannedRight (.separated _ (.call ()) (.just _))
  exact ⟨by decide +kernel, recognition_eq (fun _ => sameShape_brackets) shape 4 _⟩

end Grammar

end SpannedParsing
