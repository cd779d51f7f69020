import Mathlib.Data.List.Forall2
import SpannedParsing.Proofs.ListComposition
import SpannedParsing.Proofs.Reach

/-!
# Two runs side by side

A coupling says which cursors, logs and failures of two runs correspond. Two
parsers are coupled if they give corresponding replies at corresponding cursors:
both none, or both of the same kind. Every combinator keeps parsers coupled, as
long as the coupling keeps the few steps of `Composes`; a repetition stops in the
same round of both runs because both move on, or do not, in the same rounds.

For one grammar in two runs, what is left are the items ahead of the cursors, the
spans that are captured, the outcomes that the grammar computes on its own and what
its contexts go on with (`alike_run`).
-/
namespace SpannedParsing

variable {ρ ι υ α α' β β' σ σ' ε : Type}

/-- Which cursors, logs and failures of two runs correspond. A failure is an error,
which both runs share, with a span and a log for each run. -/
structure Coupling (ι υ ε : Type) where
  cursor : Cursor ι → Cursor υ → Prop
  log : List Event → List Event → Prop
  failure : ε → Span → List Event → Span → List Event → Prop

namespace Coupling

inductive Replies (K : Coupling ι υ ε) (V : α → α' → Prop) :
    Reply ι α ε → Reply υ α' ε → Prop
  | matched {a : α} {a' : α'} {c : Cursor ι} {d : Cursor υ} {l m : List Event} (value : V a a')
      (rest : K.cursor c d) (logs : K.log l m) :
    Replies K V ⟨.matched a c, l⟩ ⟨.matched a' d, m⟩
  | noMatch {l m : List Event} (logs : K.log l m) :
    Replies K V ⟨.noMatch, l⟩ ⟨.noMatch, m⟩
  | errored {e : ε} {s t : Span} {l m : List Event} (failed : K.failure e s l t m) :
    Replies K V ⟨.errored e s, l⟩ ⟨.errored e t, m⟩

/-- The steps that all combinators are made of keep two runs together. -/
structure Composes (K : Coupling ι υ ε) : Prop where
  left : ∀ {c d}, K.cursor c d → c.left = d.left
  moved : ∀ {c d c' d'}, K.cursor c d → K.cursor c' d' →
    (c.position < c'.position ↔ d.position < d'.position)
  silent : K.log [] []
  append : ∀ {l m l' m'}, K.log l m → K.log l' m' → K.log (l ++ l') (m ++ m')
  short : ∀ {c d} n, K.cursor c d →
    K.log [.listTooShort c.position n] [.listTooShort d.position n]
  stall : ∀ {c d}, K.cursor c d → K.log [.noProgress c.position] [.noProgress d.position]
  later : ∀ {l m e s l' t m'}, K.log l m → K.failure e s l' t m' →
    K.failure e s (l ++ l') t (m ++ m')

/-- Corresponding cursors have the same items ahead of them and advance together. -/
structure Ahead (K : Coupling ι ι ε) : Prop where
  items : ∀ {c d}, K.cursor c d → c.remaining.map Spanned.item = d.remaining.map Spanned.item
  advance : ∀ {c d} n, K.cursor c d → K.cursor (c.advance n) (d.advance n)

variable {K : Coupling ι υ ε} {V : α → α' → Prop} {W : β → β' → Prop}

theorem Replies.after (hK : K.Composes) {l m : List Event} {r : Reply ι α ε} {r' : Reply υ α' ε}
    (logs : K.log l m) (h : K.Replies V r r') :
    K.Replies V (r.after l) (r'.after m) := by
  cases h with
  | matched value rest logs' => exact .matched value rest (hK.append logs logs')
  | noMatch logs' => exact .noMatch (hK.append logs logs')
  | errored failed => exact .errored (hK.later logs failed)

theorem Replies.map {f : α → β} {f' : α' → β'} (hf : ∀ a a', V a a' → W (f a) (f' a'))
    {r : Reply ι α ε} {r' : Reply υ α' ε} (h : K.Replies V r r') :
    K.Replies W ⟨r.outcome.map f, r.log⟩ ⟨r'.outcome.map f', r'.log⟩ := by
  cases h with
  | matched value rest logs => exact .matched (hf _ _ value) rest logs
  | noMatch logs => exact .noMatch logs
  | errored failed => exact .errored failed

end Coupling

/-- Related results stay related under functions that keep the relation. -/
theorem optionRel_map {γ γ' δ δ' : Type} {R : γ → γ' → Prop} {S : δ → δ' → Prop}
    {f : γ → δ} {f' : γ' → δ'} (hf : ∀ x y, R x y → S (f x) (f' y)) {x : Option γ}
    {y : Option γ'} (h : Option.Rel R x y) : Option.Rel S (x.map f) (y.map f') := by
  cases h with
  | some h => exact .some (hf _ _ h)
  | none => exact .none

namespace Parser

/-- The parsers give corresponding replies at corresponding cursors. -/
def Coupled (K : Coupling ι υ ε) (V : α → α' → Prop) (p : Parser ι α ε)
    (p' : Parser υ α' ε) : Prop :=
  ∀ c d, K.cursor c d → Option.Rel (K.Replies V) (p c) (p' d)

section

variable {K : Coupling ι υ ε} {V : α → α' → Prop} {W : β → β' → Prop} {S : σ → σ' → Prop}

theorem coupled_succeed (hK : K.Composes) {a : α} {a' : α'} (value : V a a') :
    Coupled K V (succeed a) (succeed a') := by
  intro c d together
  exact .some (.matched value together hK.silent)

theorem coupled_miss (hK : K.Composes) : Coupled K V miss miss := by
  intro c d together
  exact .some (.noMatch hK.silent)

theorem coupled_tooShort (hK : K.Composes) (n : Nat) : Coupled K V (tooShort n) (tooShort n) := by
  intro c d together
  exact .some (.noMatch (hK.short n together))

namespace Coupled

/-- The logs of replies that are no errors may be compared in another way. -/
theorem relog {L : List Event → List Event → Prop} {p : Parser ι α ε} {p' : Parser υ α' ε}
    (logs : ∀ c d r r', p c = some r → p' d = some r' → r.outcome.isErrored = false →
      r'.outcome.isErrored = false → L r.log r'.log)
    (h : Coupled K V p p') : Coupled { K with log := L } V p p' := by
  intro c d together
  have replies := h c d together
  have compared := logs c d
  generalize p c = x at replies compared ⊢
  generalize p' d = y at replies compared ⊢
  cases replies with
  | none => exact .none
  | some replies =>
    have compared := compared _ _ rfl rfl
    cases replies with
    | matched value rest _ => exact .some (.matched value rest (compared rfl rfl))
    | noMatch _ => exact .some (.noMatch (compared rfl rfl))
    | errored failed => exact .some (.errored failed)

/-- Both runs take the same way, and what they report before it corresponds. -/
theorem branch (hK : K.Composes) {p : Parser ι α ε} {p' : Parser υ α' ε}
    {hit : α → Parser ι β ε} {hit' : α' → Parser υ β' ε} {other : Parser ι β ε}
    {other' : Parser υ β' ε} (hp : Coupled K V p p')
    (hh : ∀ a a', V a a' → Coupled K W (hit a) (hit' a')) (ho : Coupled K W other other') :
    Coupled K W (p.branch hit other) (p'.branch hit' other') := by
  intro c d together
  have first := hp c d together
  generalize found : p c = x at first
  generalize found' : p' d = y at first
  cases first with
  | none =>
    rw [branch_none found, branch_none found']
    exact .none
  | some replies =>
    cases replies with
    | matched value rest logs =>
      rw [branch_matched found, branch_matched found']
      exact optionRel_map (fun _ _ => Coupling.Replies.after hK logs) (hh _ _ value _ _ rest)
    | noMatch logs =>
      rw [branch_noMatch found, branch_noMatch found']
      exact optionRel_map (fun _ _ => Coupling.Replies.after hK logs) (ho c d together)
    | errored failed =>
      rw [branch_errored found, branch_errored found']
      exact .some (.errored failed)

theorem andThen (hK : K.Composes) {p : Parser ι α ε} {p' : Parser υ α' ε}
    {next : α → Parser ι β ε} {next' : α' → Parser υ β' ε} (hp : Coupled K V p p')
    (hn : ∀ a a', V a a' → Coupled K W (next a) (next' a')) :
    Coupled K W (p.andThen next) (p'.andThen next') :=
  hp.branch hK hn (coupled_miss hK)

theorem orElse (hK : K.Composes) {p q : Parser ι α ε} {p' q' : Parser υ α' ε}
    (hp : Coupled K V p p') (hq : Coupled K V q q') :
    Coupled K V (p.orElse q) (p'.orElse q') :=
  hp.branch hK (fun _ _ value => coupled_succeed hK value) hq

theorem map {f : α → β} {f' : α' → β'} (hf : ∀ a a', V a a' → W (f a) (f' a'))
    {p : Parser ι α ε} {p' : Parser υ α' ε} (hp : Coupled K V p p') :
    Coupled K W (p.map f) (p'.map f') := by
  intro c d together
  rw [map_apply, map_apply]
  exact optionRel_map (fun _ _ => Coupling.Replies.map hf) (hp c d together)

theorem mapSame (f : α → β) {p : Parser ι α ε} {p' : Parser υ α ε} (hp : Coupled K Eq p p') :
    Coupled K Eq (p.map f) (p'.map f) := by
  apply hp.map
  intro a a' same
  rw [same]

theorem firstOf (hK : K.Composes) {ps : List (Parser ι α ε)} {ps' : List (Parser υ α' ε)}
    (h : List.Forall₂ (Coupled K V) ps ps') :
    Coupled K V (Parser.firstOf ps) (Parser.firstOf ps') := by
  induction h with
  | nil => exact coupled_miss hK
  | cons first _ ih => exact first.orElse hK ih

theorem check (hK : K.Composes) {test : α → Bool} {test' : α' → Bool}
    (same : ∀ a a', V a a' → test a = test' a') {p : Parser ι α ε} {p' : Parser υ α' ε}
    (hp : Coupled K V p p') : Coupled K V (p.check test) (p'.check test') := by
  apply hp.andThen hK
  intro a a' value
  rw [same a a' value]
  split
  · exact coupled_succeed hK value
  · exact coupled_miss hK

/-- Spans are captured in both runs between corresponding cursors. -/
theorem spanned {T : Spanned α → Spanned α' → Prop} {p : Parser ι α ε} {p' : Parser υ α' ε}
    (capture : ∀ a a' c d rest rest', V a a' → K.cursor c d → K.cursor rest rest' →
      T ⟨a, c.spanUntil rest⟩ ⟨a', d.spanUntil rest'⟩)
    (hp : Coupled K V p p') : Coupled K T p.spanned p'.spanned := by
  intro c d together
  rw [spanned_apply, spanned_apply]
  refine optionRel_map ?_ (hp c d together)
  intro r r' replies
  cases replies with
  | matched value rest logs => exact .matched (capture _ _ _ _ _ _ value together rest) rest logs
  | noMatch logs => exact .noMatch logs
  | errored failed => exact .errored failed

theorem keepRight (hK : K.Composes) {p : Parser ι α ε} {p' : Parser υ α' ε} {q : Parser ι β ε}
    {q' : Parser υ β' ε} (hp : Coupled K V p p') (hq : Coupled K W q q') :
    Coupled K W (p.keepRight q) (p'.keepRight q') :=
  hp.andThen hK fun _ _ _ => hq

theorem replies_enough (n : Nat) {c : Cursor ι} {d : Cursor υ} {l m : List Event}
    (together : K.cursor c d) (logs : K.log l m) :
    K.Replies (List.Forall₂ V) ⟨enough n [] c, l⟩ ⟨enough n [] d, m⟩ := by
  unfold enough
  simp only [List.length_nil]
  split
  · exact .noMatch logs
  · exact .matched .nil together logs

/-- Both repetitions end in the same round, since both move on in the same rounds. -/
theorem repeated (hK : K.Composes) {body : Parser ι α ε} {body' : Parser υ α' ε} (n : Nat)
    (hb : Coupled K V body body') :
    Coupled K (List.Forall₂ V) (body.repeated n) (body'.repeated n) := by
  intro c d together
  induction c using Cursor.inductAhead generalizing d n with
  | ind c ih =>
    have round := hb c d together
    rw [repeated_apply, repeated_apply]
    generalize body c = x at round ⊢
    generalize body' d = y at round ⊢
    cases round with
    | none => exact .none
    | some replies =>
      cases replies with
      | @matched a a' rest rest' l m value after logs =>
        have progress := hK.moved together after
        dsimp only
        by_cases moved : c.position < rest.position
        · rw [if_pos moved, if_pos (progress.mp moved)]
          refine optionRel_map ?_ (ih rest moved (n - 1) rest' after)
          intro r r' tail
          exact (tail.map fun _ _ values => .cons value values).after hK logs
        · rw [if_neg moved, if_neg (mt progress.mpr moved)]
          exact .some (replies_enough n together (hK.append logs (hK.stall together)))
      | noMatch logs => exact .some (replies_enough n together logs)
      | errored failed => exact .some (.errored failed)

theorem skipIf (hK : K.Composes) {p : Parser ι σ ε} {p' : Parser υ σ' ε} (allowed : Bool)
    (hp : Coupled K S p p') :
    Coupled K Eq (Parser.skipIf allowed p) (Parser.skipIf allowed p') := by
  cases allowed with
  | false => exact coupled_succeed hK rfl
  | true => exact hp.branch hK (fun _ _ _ => coupled_succeed hK rfl) (coupled_succeed hK rfl)

theorem separated (hK : K.Composes) {item : Parser ι α ε} {item' : Parser υ α' ε}
    {separator : Parser ι σ ε} {separator' : Parser υ σ' ε} (form : ListForm)
    (hi : Coupled K V item item') (hs : Coupled K S separator separator') :
    Coupled K (List.Forall₂ V) (item.separated separator form)
      (item'.separated separator' form) := by
  have more : Coupled K (List.Forall₂ V) (pairs item separator form)
      (pairs item' separator' form) := (hs.keepRight hK hi).repeated hK _
  have core : Coupled K (List.Forall₂ V)
      (skeleton item separator form (tooShort form.atLeast))
      (skeleton item' separator' form (tooShort form.atLeast)) := by
    apply (hs.skipIf hK form.leading).andThen hK
    intro _ _ _
    apply hi.andThen hK
    intro first first' value
    refine more.branch hK ?_ (coupled_tooShort hK _)
    intro values values' tail
    exact (hs.skipIf hK form.trailing).map fun _ _ _ => .cons value tail
  rw [separated_eq_skeleton, separated_eq_skeleton]
  split
  · exact core.orElse hK (coupled_succeed hK .nil)
  · exact core

end Coupled

end

variable {K : Coupling ι ι ε}

theorem coupled_satisfy (hK : K.Composes) (hA : K.Ahead) (test : ι → Bool) :
    Coupled K Eq (satisfy test) (satisfy test) := by
  intro c d together
  have next : c.peek.map Spanned.item = d.peek.map Spanned.item := by
    rw [Cursor.peek_eq_head?, Cursor.peek_eq_head?, ← List.head?_map, ← List.head?_map,
      hA.items together]
  rw [satisfy_apply, satisfy_apply]
  rcases found : c.peek with _ | x
  · rcases found' : d.peek with _ | y
    · exact .some (.noMatch hK.silent)
    · simp [found, found'] at next
  · rcases found' : d.peek with _ | y
    · simp [found, found'] at next
    · have same : x.item = y.item := by simpa [found, found'] using next
      dsimp only
      rw [same]
      split
      · exact .some (.matched rfl (hA.advance 1 together) hK.silent)
      · exact .some (.noMatch hK.silent)

theorem coupled_sequence [DecidableEq ι] (hK : K.Composes) (hA : K.Ahead) (xs : List ι) :
    Coupled K Eq (sequence xs) (sequence xs) := by
  intro c d together
  have same : c.startsWith xs = d.startsWith xs := by
    have agree : c.agrees xs = d.agrees xs := by
      rw [Bool.eq_iff_iff, Cursor.agrees_iff, Cursor.agrees_iff, hA.items together]
    rw [Cursor.startsWith, Cursor.startsWith, agree]
  unfold sequence
  rw [ofOutcome_apply, ofOutcome_apply, same]
  split
  · exact .some (.matched rfl (hA.advance xs.length together) hK.silent)
  · exact .some (.noMatch hK.silent)

theorem coupled_finish {K : Coupling ι υ ε} (hK : K.Composes) : Coupled K Eq finish finish := by
  intro c d together
  have same : c.atEnd = d.atEnd := by
    rw [Bool.eq_iff_iff, Cursor.atEnd_iff_left, Cursor.atEnd_iff_left, hK.left together]
  unfold finish
  rw [ofOutcome_apply, ofOutcome_apply, same]
  split
  · exact .some (.matched rfl together hK.silent)
  · exact .some (.noMatch hK.silent)

end Parser

namespace Coupling

/-- Both runs stand at the same cursor, at one of certain places, and do the same. -/
def within (place : Cursor ι → Prop) : Coupling ι ι ε where
  cursor c d := c = d ∧ place c
  log := Eq
  failure _ s l t m := s = t ∧ l = m

theorem within_composes (place : Cursor ι → Prop) :
    (within place : Coupling ι ι ε).Composes where
  left together := by rw [together.1]
  moved together later := by rw [together.1, later.1]
  silent := rfl
  append first second := congrArg₂ (· ++ ·) first second
  short n together := by
    obtain ⟨rfl, -⟩ := together
    rfl
  stall together := by
    obtain ⟨rfl, -⟩ := together
    rfl
  later logs failed := ⟨failed.1, congrArg₂ (· ++ ·) logs failed.2⟩

end Coupling

/-- With equal values the two parsers give the same reply at each of the places. -/
theorem Parser.Coupled.eq_of_within {place : Cursor ι → Prop} {p q : Parser ι α ε}
    (h : Coupled (.within place) Eq p q) {c : Cursor ι} (there : place c) : p c = q c := by
  have replies := h c c ⟨rfl, there⟩
  generalize p c = x at replies ⊢
  generalize q c = y at replies ⊢
  cases replies with
  | none => rfl
  | some replies =>
    cases replies with
    | matched value rest logs => rw [value, rest.1, logs]
    | noMatch logs => rw [logs]
    | errored failed => rw [failed.1, failed.2]

namespace Grammar

variable [DecidableEq ι] {K : Coupling ι ι ε} {table : ρ → Grammar ρ ι ε}
  {family : Grammar ρ ι ε → Prop}

abbrev Alike (K : Coupling ι ι ε) (p : Parser ι (Value ι) ε) : Prop := Parser.Coupled K Eq p p

/-- What is left to show of the nodes of a family of grammars that has all their parts:
the errors of required parts, the spans that are captured, and the outcomes that are
computed from the cursor alone. -/
structure OwnNodes (K : Coupling ι ι ε) (table : ρ → Grammar ρ ι ε)
    (family : Grammar ρ ι ε → Prop) : Prop where
  parts : ∀ h part, family h → HasPart table h part → family part
  unmet : ∀ p e, family (.require p e) → Alike K (Parser.unmet e)
  captured : ∀ p, family (.spanned p) → ∀ c d rest rest', K.cursor c d →
    K.cursor rest rest' → c.spanUntil rest = d.spanUntil rest'
  answer : ∀ f, family (.answer f) → Alike K (Parser.ofOutcome f)

/-- What is left to show of a family of grammars that has all their parts: what its
nodes do on their own, and what its contexts go on with. -/
structure OwnRuns (K : Coupling ι ι ε) (table : ρ → Grammar ρ ι ε)
    (family : Grammar ρ ι ε → Prop) : Prop extends OwnNodes K table family where
  context : ContextsKeep (Alike K) table family

/-- Every grammar of the family has coupled parsers, if the two parsers of every rule
that it calls are coupled, and those that its contexts go on with. -/
theorem coupled_denote (hK : K.Composes) (hA : K.Ahead) (own : OwnNodes K table family)
    {rules rules' : ρ → Parser ι (Value ι) ε}
    (called : ∀ r, family (.call r) → Parser.Coupled K Eq (rules r) (rules' r))
    (context : ∀ p next, family (.withContext p next) → ∀ value,
      (∀ c, family (next value c) →
        Parser.Coupled K Eq (denote rules (next value c)) (denote rules' (next value c))) →
      Parser.Coupled K Eq (fun c => denote rules (next value c) c)
        (fun c => denote rules' (next value c) c))
    (h : Grammar ρ ι ε) (member : family h) :
    Parser.Coupled K Eq (denote rules h) (denote rules' h) := by
  induction h using Grammar.induct with
  | just x => exact (Parser.coupled_satisfy hK hA _).mapSame _
  | oneOf xs => exact (Parser.coupled_satisfy hK hA _).mapSame _
  | satisfy test => exact (Parser.coupled_satisfy hK hA test).mapSame _
  | sequence xs => exact (Parser.coupled_sequence hK hA xs).mapSame _
  | finish => exact (Parser.coupled_finish hK).mapSame _
  | answer f => exact own.answer f member
  | both joining p q hp hq =>
    apply (hp (own.parts _ p member (Or.inl rfl))).andThen hK
    rintro a _ rfl
    exact (hq (own.parts _ q member (Or.inr rfl))).mapSame _
  | orElse p q hp hq =>
    have first := hp (own.parts _ p member (Or.inl rfl))
    exact first.orElse hK (hq (own.parts _ q member (Or.inr rfl)))
  | firstOf ps hps =>
    rw [denote_firstOf, denote_firstOf]
    apply Parser.Coupled.firstOf hK
    rw [List.forall₂_map_left_iff, List.forall₂_map_right_iff, List.forall₂_same]
    intro p hp
    exact hps p hp (own.parts _ p member hp)
  | maybe fallback p hp =>
    have part := hp (own.parts _ p member rfl)
    refine part.branch hK ?_ (Parser.coupled_succeed hK rfl)
    rintro a _ rfl
    exact Parser.coupled_succeed hK rfl
  | require p e hp =>
    have part := hp (own.parts _ p member rfl)
    exact part.orElse hK (own.unmet p e member)
  | spanned p hp =>
    have part := hp (own.parts _ p member rfl)
    refine (part.spanned ?_).mapSame _
    rintro a _ c d rest rest' rfl together later
    rw [own.captured p member c d rest rest' together later]
  | map f p hp => exact (hp (own.parts _ p member rfl)).mapSame f
  | check p test hp =>
    refine (hp (own.parts _ p member rfl)).check hK ?_
    intro a a' same
    rw [same]
  | repeated p n hp =>
    have part := (hp (own.parts _ p member rfl)).repeated hK n
    rw [List.forall₂_eq_eq_eq] at part
    exact part.mapSame _
  | separated item separator form hi hs =>
    have items := hi (own.parts _ item member (Or.inl rfl))
    have part := items.separated hK form (hs (own.parts _ separator member (Or.inr rfl)))
    rw [List.forall₂_eq_eq_eq] at part
    exact part.mapSame _
  | withContext p next hp hnext =>
    rw [denote_withContext, denote_withContext]
    apply (hp (own.parts _ p member rfl)).andThen hK
    rintro a _ rfl
    have chosen := context p next member a (hnext a)
    exact chosen.mapSame (Value.pair a)
  | call r => exact called r member

/-- Every grammar of the family replies alike, if the rules that are called do. -/
theorem alike_part (hK : K.Composes) (hA : K.Ahead) (own : OwnRuns K table family)
    {depth : Nat}
    (rules : ∀ m, m ≤ depth → ∀ r, family (.call r) → Alike K (run table m (.call r)))
    (h : Grammar ρ ι ε) (member : family h) : Alike K (run table depth h) := by
  refine coupled_denote hK hA own.toOwnNodes (rules depth (Nat.le_refl depth)) ?_ h member
  intro p next context value chosen
  exact own.context p next context depth rules value chosen

theorem alike_run (hK : K.Composes) (hA : K.Ahead) (own : OwnRuns K table family)
    {g : Grammar ρ ι ε} (member : family g) (depth : Nat) : Alike K (run table depth g) := by
  refine run_induction (fun r called => own.parts _ _ called rfl) ?_ ?_ member depth
  · intro c d _
    exact .none
  · intro depth rules h
    exact alike_part hK hA own rules h

/-- Taking items looks ahead and advances. -/
theorem alike_take (hK : K.Composes) (hA : K.Ahead) (depth n : Nat) :
    Alike K (run table depth (take n)) := by
  intro c d together
  have taken (e : Cursor ι) : run table depth (take n) e = some ⟨if n ≤ e.left then
      .matched (.ofItems ((e.remaining.map Spanned.item).take n)) (e.advance n) else .noMatch,
      []⟩ := by
    rw [← List.map_take, ← answer_take (ρ := ρ) rfl]
    rfl
  rw [taken, taken, hK.left together, hA.items together]
  split
  · exact .some (.matched rfl (hA.advance n together) hK.silent)
  · exact .some (.noMatch hK.silent)

end Grammar

end SpannedParsing
