import SpannedParsing.Proofs.ListComposition
import SpannedParsing.Proofs.Reach
import SpannedParsing.Proofs.SourceOrder

/-!
# Captured spans

Where the spans of the items are in source order, so are the spans that a grammar
captures: no span inside the value of a match stops before it starts, and all lie between
the offsets of the cursors where the match started and ended. It does not matter how deep
in the value they stand, or how they got there through lists, alternatives and rules.

A span inside a value is either captured during the match, or was already there. The
second kind is what a parser is told by a value found earlier; `Captures` names these
spans as known. A sequence goes on with the spans of its first part known, and a context
with those of the value that it is given, so containment is carried from one to the next
by the offsets alone.
-/
namespace SpannedParsing

variable {ρ ι α β σ ε : Type}

namespace Value

mutual

/-- The spans of all values with a span that occur anywhere in a value. -/
def spans : Value ι → List Span
  | list values => spansIn values
  | pair first second => spans first ++ spans second
  | present value => spans value
  | spanned value span => span :: spans value
  | unit => []
  | bool _ => []
  | item _ => []
  | int _ => []
  | str _ => []
  | absent => []

def spansIn : List (Value ι) → List Span
  | [] => []
  | value :: values => spans value ++ spansIn values

end

theorem spansIn_eq_flatMap (values : List (Value ι)) : spansIn values = values.flatMap spans := by
  induction values with
  | nil => rfl
  | cons value values ih => rw [spansIn, ih, List.flatMap_cons]

@[simp] theorem spans_list (values : List (Value ι)) :
    (list values).spans = values.flatMap spans := by
  rw [spans, spansIn_eq_flatMap]

@[simp] theorem spans_ofItems (xs : List ι) : (ofItems xs).spans = [] := by
  simp [ofItems, spans]

theorem flatMap_spans_elements (v : Value ι) : v.elements.flatMap spans = v.spans := by
  cases v <;> simp [elements]

/-- Joining two values adds no spans. -/
theorem spans_combine (joining : Joining) (a b : Value ι) :
    (joining.combine a b).spans ⊆ a.spans ++ b.spans := by
  cases joining with
  | pair => simp [Joining.combine, spans]
  | right => simp [Joining.combine]
  | left => simp [Joining.combine]
  | cons => simp [Joining.combine, flatMap_spans_elements]

end Value

/-- A match that starts at `c` and ends at `d`: it stays on the items and does not go
back, and each of the spans in its value is known or captured on the way. -/
structure Cursor.Contains (c d : Cursor ι) (known spans : List Span) : Prop where
  items : d.items = c.items
  position : c.position ≤ d.position
  inside : ∀ s ∈ spans, s ∈ known ∨ c.Encloses d s

namespace Cursor.Contains

variable {c d e : Cursor ι} {known known' a b : List Span}

theorem stay (c : Cursor ι) (sub : a ⊆ known) : c.Contains c known a :=
  ⟨rfl, Nat.le_refl _, fun _ mem => Or.inl (sub mem)⟩

theorem advance (c : Cursor ι) (n : Nat) (known : List Span) :
    c.Contains (c.advance n) known [] :=
  ⟨rfl, position_le_advance c n, fun _ mem => nomatch mem⟩

theorem mono (h : c.Contains d known a) (known_sub : known ⊆ known') (sub : b ⊆ a) :
    c.Contains d known' b where
  items := h.items
  position := h.position
  inside s mem := (h.inside s (sub mem)).imp_left (@known_sub s)

/-- After a match, the spans in its value are known. Both together enclose what either
of them encloses. -/
theorem append (ordered : InOrder c.items) (first : c.Contains d known a)
    (second : d.Contains e (a ++ known) b) : c.Contains e known (a ++ b) := by
  have before : c.offset ≤ d.offset := offset_le ordered first.items first.position
  have after : d.offset ≤ e.offset :=
    offset_le (first.items ▸ ordered) second.items second.position
  have earlier : ∀ s ∈ a, s ∈ known ∨ c.Encloses e s := by
    intro s mem
    exact (first.inside s mem).imp_right fun h => h.widen (Nat.le_refl _) after
  refine ⟨second.items.trans first.items, Nat.le_trans first.position second.position, ?_⟩
  intro s mem
  rcases List.mem_append.mp mem with mem | mem
  · exact earlier s mem
  · rcases second.inside s mem with mem | captured
    · rcases List.mem_append.mp mem with mem | mem
      · exact earlier s mem
      · exact Or.inl mem
    · exact Or.inr (captured.widen before (Nat.le_refl _))

theorem trans (ordered : InOrder c.items) (first : c.Contains d known a)
    (second : d.Contains e (a ++ known) b) : c.Contains e known b :=
  (first.append ordered second).mono (List.Subset.refl _) (List.subset_append_right a b)

theorem capture (ordered : InOrder c.items) (h : c.Contains d known a) :
    c.Contains d known (c.spanUntil d :: a) := by
  refine ⟨h.items, h.position, ?_⟩
  intro s mem
  rcases List.mem_cons.mp mem with rfl | mem
  · exact Or.inr (encloses_spanUntil ordered h.items h.position)
  · exact h.inside s mem

end Cursor.Contains

/-- Missed requirements are reported at spans in order. -/
def ReportedInOrder (log : List Event) : Prop :=
  ∀ q s, Event.requirementMissed q s ∈ log → s.start ≤ s.stop

theorem ReportedInOrder.append {l m : List Event} (hl : ReportedInOrder l)
    (hm : ReportedInOrder m) : ReportedInOrder (l ++ m) := by
  intro q s mem
  rcases List.mem_append.mp mem with mem | mem
  · exact hl q s mem
  · exact hm q s mem

namespace Parser

/-- On the given items, the parser captures the spans in its values during the match,
as far as they are not known, and reports at spans in order. -/
def Captures (items : Array (Spanned ι)) (known : List Span) (spans : α → List Span)
    (p : Parser ι α ε) : Prop :=
  ∀ c, c.items = items → ∀ r, p c = some r →
    (∀ a d, r.outcome = .matched a d → c.Contains d known (spans a)) ∧ ReportedInOrder r.log

variable {items : Array (Spanned ι)} {known known' : List Span} {spans : α → List Span}
  {spans' : β → List Span} {spansOf : σ → List Span}

theorem captures_ofOutcome {f : Cursor ι → Outcome ι α ε}
    (h : ∀ c, c.items = items → ∀ a d, f c = .matched a d → c.Contains d known (spans a)) :
    (ofOutcome f).Captures items known spans := by
  intro c there r found
  obtain rfl := Option.some.inj found
  exact ⟨h c there, fun q s mem => nomatch mem⟩

theorem captures_succeed {a : α} (sub : spans a ⊆ known) :
    (succeed a : Parser ι α ε).Captures items known spans := by
  apply captures_ofOutcome
  intro c _ a d matched
  obtain ⟨rfl, rfl⟩ := Outcome.matched.inj matched
  exact .stay c sub

theorem captures_miss : (miss : Parser ι α ε).Captures items known spans :=
  captures_ofOutcome fun _ _ _ _ matched => nomatch matched

theorem captures_tooShort (n : Nat) : (tooShort n : Parser ι α ε).Captures items known spans := by
  intro c _ r found
  obtain rfl := Option.some.inj found
  refine ⟨fun a d matched => (nomatch matched), ?_⟩
  intro q s mem
  simp at mem

theorem captures_unmet (ordered : InOrder items) (e : ε) :
    (unmet e : Parser ι α ε).Captures items known spans := by
  rintro c rfl r found
  obtain rfl := Option.some.inj found
  refine ⟨fun a d matched => (nomatch matched), ?_⟩
  intro q s mem
  obtain ⟨rfl, rfl⟩ := Event.requirementMissed.inj (List.mem_singleton.mp mem)
  exact Cursor.lastSpan_ordered ordered

theorem captures_satisfy (test : ι → Bool) :
    (satisfy test : Parser ι ι ε).Captures items known fun _ => [] := by
  apply captures_ofOutcome
  intro c _ a d matched
  split at matched
  · split at matched
    · obtain ⟨rfl, rfl⟩ := Outcome.matched.inj matched
      exact .advance c 1 known
    · exact nomatch matched
  · exact nomatch matched

theorem captures_sequence [DecidableEq ι] (xs : List ι) :
    (sequence xs : Parser ι (List ι) ε).Captures items known fun _ => [] := by
  apply captures_ofOutcome
  intro c _ a d matched
  split at matched
  · obtain ⟨rfl, rfl⟩ := Outcome.matched.inj matched
    exact .advance c _ known
  · exact nomatch matched

theorem captures_finish : (finish : Parser ι Unit ε).Captures items known fun _ => [] := by
  apply captures_ofOutcome
  intro c _ a d matched
  split at matched
  · obtain ⟨rfl, rfl⟩ := Outcome.matched.inj matched
    exact .stay c (List.nil_subset known)
  · exact nomatch matched

namespace Captures

theorem mono {p : Parser ι α ε} (hp : p.Captures items known spans) (sub : known ⊆ known') :
    p.Captures items known' spans := by
  intro c there r found
  obtain ⟨hits, reports⟩ := hp c there r found
  exact ⟨fun a d matched => (hits a d matched).mono sub (List.Subset.refl _), reports⟩

/-- What follows a match knows the spans in its value. -/
theorem branch (ordered : InOrder items) {p : Parser ι α ε} {hit : α → Parser ι β ε}
    {other : Parser ι β ε} (hp : p.Captures items known spans)
    (hh : ∀ a, (hit a).Captures items (spans a ++ known) spans')
    (ho : other.Captures items known spans') :
    (p.branch hit other).Captures items known spans' := by
  rintro c rfl r hr
  rcases found : p c with _ | ⟨⟨a, rest⟩ | _ | ⟨e, s⟩, log⟩
  · simp [branch_none found] at hr
  · obtain ⟨first, before⟩ := hp c rfl _ found
    have first := first a rest rfl
    rw [branch_matched found, Option.map_eq_some_iff] at hr
    obtain ⟨x, hx, rfl⟩ := hr
    obtain ⟨second, after⟩ := hh a rest first.items x hx
    exact ⟨fun b d matched => first.trans ordered (second b d matched), before.append after⟩
  · obtain ⟨-, before⟩ := hp c rfl _ found
    rw [branch_noMatch found, Option.map_eq_some_iff] at hr
    obtain ⟨x, hx, rfl⟩ := hr
    obtain ⟨second, after⟩ := ho c rfl x hx
    exact ⟨second, before.append after⟩
  · obtain ⟨-, reports⟩ := hp c rfl _ found
    rw [branch_errored found] at hr
    obtain rfl := Option.some.inj hr
    exact ⟨fun b d matched => (nomatch matched), reports⟩

theorem andThen (ordered : InOrder items) {p : Parser ι α ε} {next : α → Parser ι β ε}
    (hp : p.Captures items known spans)
    (hn : ∀ a, (next a).Captures items (spans a ++ known) spans') :
    (p.andThen next).Captures items known spans' :=
  hp.branch ordered hn captures_miss

theorem orElse (ordered : InOrder items) {p q : Parser ι α ε}
    (hp : p.Captures items known spans) (hq : q.Captures items known spans) :
    (p.orElse q).Captures items known spans := by
  refine hp.branch ordered ?_ hq
  intro a
  exact captures_succeed (List.subset_append_left _ _)

/-- A changed value has the spans of the value found and those that are known. -/
theorem map (ordered : InOrder items) {p : Parser ι α ε} {f : α → β}
    (sub : ∀ a, spans' (f a) ⊆ spans a ++ known) (hp : p.Captures items known spans) :
    (p.map f).Captures items known spans' :=
  hp.andThen ordered fun a => captures_succeed (sub a)

theorem firstOf (ordered : InOrder items) {ps : List (Parser ι α ε)}
    (h : ∀ p ∈ ps, p.Captures items known spans) :
    (Parser.firstOf ps).Captures items known spans := by
  induction ps with
  | nil => exact captures_miss
  | cons p ps ih =>
    have tail := ih fun q hq => h q (by simp [hq])
    exact (h p (by simp)).orElse ordered tail

theorem check (ordered : InOrder items) {p : Parser ι α ε} (test : α → Bool)
    (hp : p.Captures items known spans) : (p.check test).Captures items known spans := by
  apply hp.andThen ordered
  intro a
  split
  · exact captures_succeed (List.subset_append_left _ _)
  · exact captures_miss

theorem spanned (ordered : InOrder items) {p : Parser ι α ε}
    (hp : p.Captures items known spans) :
    p.spanned.Captures items known fun x => x.span :: spans x.item := by
  rintro c rfl r hr
  rw [spanned_apply, Option.map_eq_some_iff] at hr
  obtain ⟨⟨o, log⟩, found, rfl⟩ := hr
  obtain ⟨hits, reports⟩ := hp c rfl _ found
  refine ⟨?_, reports⟩
  intro x d matched
  cases o with
  | matched a rest =>
    obtain ⟨rfl, rfl⟩ := Outcome.matched.inj matched
    exact (hits a rest rfl).capture ordered
  | noMatch => exact nomatch matched
  | errored e s => exact nomatch matched

/-- The values of a repetition are captured in rounds behind each other. -/
theorem repeated (ordered : InOrder items) {body : Parser ι α ε} (n : Nat)
    (hb : body.Captures items known spans) :
    (body.repeated n).Captures items known (List.flatMap spans) := by
  intro c there r hr
  have ended (m : Nat) (d last : Cursor ι) (values : List α)
      (matched : (enough m [] d : Outcome ι (List α) ε) = .matched values last) :
      d.Contains last known (values.flatMap spans) := by
    unfold enough at matched
    split at matched
    · exact nomatch matched
    · obtain ⟨rfl, rfl⟩ := Outcome.matched.inj matched
      exact .stay d (List.nil_subset known)
  induction c using Cursor.inductAhead generalizing n r with
  | ind c ih =>
    rw [repeated_apply] at hr
    rcases found : body c with _ | ⟨⟨a, rest⟩ | _ | ⟨e, s⟩, events⟩
    · simp [found] at hr
    · obtain ⟨first, before⟩ := hb c there _ found
      have first := first a rest rfl
      simp only [found] at hr
      by_cases moved : c.position < rest.position
      · rw [if_pos moved, Option.map_eq_some_iff] at hr
        obtain ⟨⟨o, log⟩, hx, rfl⟩ := hr
        obtain ⟨second, after⟩ := ih rest moved (n - 1)
          (first.items.trans there) _ hx
        refine ⟨?_, before.append after⟩
        intro values last matched
        cases o with
        | matched more stop =>
          obtain ⟨rfl, rfl⟩ := Outcome.matched.inj matched
          have later := (second more stop rfl).mono (List.subset_append_right (spans a) known)
            (List.Subset.refl _)
          exact first.append (there ▸ ordered) later
        | noMatch => exact nomatch matched
        | errored e s => exact nomatch matched
      · rw [if_neg moved] at hr
        obtain rfl := Option.some.inj hr
        refine ⟨fun values last => ended n c last values, before.append ?_⟩
        intro q s mem
        simp at mem
    · obtain ⟨-, before⟩ := hb c there _ found
      simp only [found] at hr
      obtain rfl := Option.some.inj hr
      exact ⟨fun values last => ended n c last values, before⟩
    · obtain ⟨-, reports⟩ := hb c there _ found
      simp only [found] at hr
      obtain rfl := Option.some.inj hr
      exact ⟨fun values last matched => (nomatch matched), reports⟩

theorem skipIf (ordered : InOrder items) {p : Parser ι σ ε} (allowed : Bool)
    (hp : p.Captures items known spansOf) :
    (Parser.skipIf allowed p).Captures items known fun _ => [] := by
  have nothing : (succeed () : Parser ι Unit ε).Captures items known fun _ => [] :=
    captures_succeed (List.nil_subset known)
  cases allowed with
  | false => exact nothing
  | true => exact hp.branch ordered (fun _ => captures_succeed (List.nil_subset _)) nothing

theorem separated (ordered : InOrder items) {item : Parser ι α ε} {separator : Parser ι σ ε}
    (form : ListForm) (hi : item.Captures items known spans)
    (hs : separator.Captures items known spansOf) :
    (item.separated separator form).Captures items known (List.flatMap spans) := by
  have next : (separator.keepRight item).Captures items known spans := by
    apply hs.andThen ordered
    intro a
    exact hi.mono (List.subset_append_right _ _)
  have more : (pairs item separator form).Captures items known (List.flatMap spans) :=
    next.repeated ordered _
  have core : (skeleton item separator form (tooShort form.atLeast)).Captures items known
      (List.flatMap spans) := by
    apply (hs.skipIf ordered form.leading).andThen ordered
    intro _
    apply hi.andThen ordered
    intro first
    have behind : known ⊆ spans first ++ known := List.subset_append_right _ _
    refine (more.mono behind).branch ordered ?_ (captures_tooShort _)
    intro values
    have further := List.Subset.trans behind
      (List.subset_append_right (values.flatMap spans) (spans first ++ known))
    refine ((hs.mono further).skipIf ordered form.trailing).map ordered ?_
    intro _
    simp
  rw [separated_eq_skeleton]
  split
  · exact core.orElse ordered (captures_succeed (List.nil_subset known))
  · exact core

end Captures

end Parser

namespace Grammar

variable [DecidableEq ι] {items : Array (Spanned ι)} {table : ρ → Grammar ρ ι ε}
  {g : Grammar ρ ι ε}

/-- A grammar gets all spans by capturing them. Its defaults have none, and a changed
value has no others than the value found. Its own outcomes stay on the items, do not go
back and have spans from there; so has what its contexts go on with, except for the
spans of the value that they are given. -/
structure AddsNoSpans (items : Array (Spanned ι)) (table : ρ → Grammar ρ ι ε)
    (g : Grammar ρ ι ε) : Prop where
  default : ∀ v p, Includes table g (.maybe (.default v) p) → v.spans = []
  map : ∀ f p, Includes table g (.map f p) → ∀ v, (f v).spans ⊆ v.spans
  answer : ∀ f, Includes table g (.answer f) →
    (Parser.ofOutcome f).Captures items [] Value.spans
  context : ∀ p next, Includes table g (.withContext p next) → ∀ depth,
    (∀ m, m ≤ depth → ∀ r, Includes table g (.call r) →
      (run table m (.call r)).Captures items [] Value.spans) →
    ∀ value, (∀ c, Includes table g (next value c) →
      (run table depth (next value c)).Captures items [] Value.spans) →
    Parser.Captures items value.spans Value.spans fun c => run table depth (next value c) c

/-- Every part of the grammar captures its spans, if the rules that are called do. -/
theorem captures_part (ordered : InOrder items) (own : AddsNoSpans items table g) {depth : Nat}
    (rules : ∀ m, m ≤ depth → ∀ r, Includes table g (.call r) →
      (run table m (.call r)).Captures items [] Value.spans)
    (h : Grammar ρ ι ε) (member : Includes table g h) :
    (run table depth h).Captures items [] Value.spans := by
  unfold run
  induction h using Grammar.induct with
  | just x =>
    exact (Parser.captures_satisfy _).map ordered fun _ => List.nil_subset _
  | oneOf xs =>
    exact (Parser.captures_satisfy _).map ordered fun _ => List.nil_subset _
  | satisfy test =>
    exact (Parser.captures_satisfy test).map ordered fun _ => List.nil_subset _
  | sequence xs =>
    refine (Parser.captures_sequence xs).map ordered ?_
    intro _
    simp
  | finish => exact Parser.captures_finish.map ordered fun _ => List.nil_subset _
  | answer f => exact own.answer f member
  | both joining p q hp hq =>
    apply (hp (member.part (Or.inl rfl))).andThen ordered
    intro a
    have second := (hq (member.part (Or.inr rfl))).mono (List.nil_subset (a.spans ++ []))
    refine second.map ordered ?_
    intro b s mem
    have joined := Value.spans_combine joining a b mem
    simpa [or_comm] using joined
  | orElse p q hp hq =>
    have first := hp (member.part (Or.inl rfl))
    exact first.orElse ordered (hq (member.part (Or.inr rfl)))
  | firstOf ps hps =>
    rw [denote_firstOf]
    apply Parser.Captures.firstOf ordered
    intro p hp
    obtain ⟨k, hk, rfl⟩ := List.mem_map.mp hp
    exact hps k hk (member.part hk)
  | maybe fallback p hp =>
    have part := hp (member.part rfl)
    refine part.branch ordered (fun a => Parser.captures_succeed ?_) (Parser.captures_succeed ?_)
    · cases fallback <;> simp [Fallback.found, Value.spans]
    · cases fallback with
      | default v => simp [Fallback.missing, own.default v p member]
      | option | boolean => simp [Fallback.missing, Value.spans]
  | require p e hp =>
    have part := hp (member.part rfl)
    exact part.orElse ordered (Parser.captures_unmet ordered e)
  | spanned p hp =>
    refine ((hp (member.part rfl)).spanned ordered).map ordered ?_
    intro x
    simp [Value.ofSpanned, Value.spans]
  | map f p hp =>
    refine (hp (member.part rfl)).map ordered ?_
    intro v
    rw [List.append_nil]
    exact own.map f p member v
  | check p test hp => exact (hp (member.part rfl)).check ordered test
  | repeated p n hp =>
    refine ((hp (member.part rfl)).repeated ordered n).map ordered ?_
    intro values
    simp
  | separated item separator form hi hs =>
    have list := (hi (member.part (Or.inl rfl))).separated ordered form
      (hs (member.part (Or.inr rfl)))
    refine list.map ordered ?_
    intro values
    simp
  | withContext p next hp hnext =>
    rw [denote_withContext]
    apply (hp (member.part rfl)).andThen ordered
    intro a
    rw [List.append_nil]
    have chosen := own.context p next member depth rules a (hnext a)
    refine Parser.Captures.map ordered ?_ chosen
    intro b
    simp [Value.spans]
  | call r => exact rules depth (Nat.le_refl depth) r member

theorem captures_run (ordered : InOrder items) (own : AddsNoSpans items table g) (depth : Nat) :
    (run table depth g).Captures items [] Value.spans := by
  refine run_induction (P := fun p => p.Captures items [] Value.spans)
    (fun r (called : Includes table g (.call r)) => called.part rfl) ?_ ?_ (.refl table g) depth
  · intro c _ r found
    exact nomatch found
  · intro depth rules h
    exact captures_part ordered own rules h

/-- Captured spans stay inside the parse. On items in source order, every span anywhere
in the value of a match is in order and lies between the offsets of the cursors where
the match started and ended; and the error of a required part is reported at a span in
order. -/
theorem captured_spans_inside {c : Cursor ι} (ordered : InOrder c.items)
    (own : AddsNoSpans c.items table g) {depth : Nat} {r : Reply ι (Value ι) ε}
    (found : run table depth g c = some r) :
    (∀ v d, r.outcome = .matched v d → ∀ s ∈ v.spans,
      s.start ≤ s.stop ∧ c.offset ≤ s.start ∧ s.stop ≤ d.offset) ∧
    ∀ e s q, r.outcome = .errored e s → .requirementMissed q s ∈ r.log → s.start ≤ s.stop := by
  obtain ⟨hits, reports⟩ := captures_run ordered own depth c rfl r found
  constructor
  · intro v d matched s mem
    have inside := (hits v d matched).inside s mem
    have captured := inside.resolve_left List.not_mem_nil
    exact ⟨captured.ordered, captured.start, captured.stop⟩
  · intro e s q _ missed
    exact reports q s missed

theorem captures_take (known : List Span) (depth n : Nat) :
    (run table depth (take n)).Captures items known Value.spans := by
  apply Parser.captures_ofOutcome
  intro c _ v d matched
  rw [answer_take (ρ := ρ) rfl] at matched
  split at matched
  · obtain ⟨rfl, rfl⟩ := Outcome.matched.inj matched
    rw [Value.spans_ofItems]
    exact .advance c n known
  · exact nomatch matched

/-- A block with its span, and the span of a mark behind it, which may be missing. -/
def markedBlock : Grammar Unit Item String :=
  .spanned (.both .pair (.call ()) (.spanned (.maybe .option (.just (.char ';')))))

def markedBlocks : Grammar Unit Item String :=
  .separated markedBlock (.just (.char ',')) { leading := true }

/-- Nothing is changed or given by default, and contexts count items. -/
def CapturesOnly : Grammar Unit Item String → Prop
  | .answer f => ∃ n, (.answer f : Grammar Unit Item String) = take n
  | .withContext _ next => next = fun value _ => counted value
  | .map _ _ => False
  | .maybe (.default _) _ => False
  | _ => True

theorem capturesOnly_block : Everywhere CapturesOnly block := by
  refine ⟨trivial, ⟨rfl, trivial, fun value _ => ⟨value.amount, rfl⟩⟩, ?_⟩
  simp [Everywhere, CapturesOnly]

theorem capturesOnly_markedBlocks : Everywhere CapturesOnly markedBlocks := by
  simp [markedBlocks, markedBlock, Everywhere, CapturesOnly]

theorem addsNoSpans_markedBlocks (items : Array (Spanned Item)) :
    AddsNoSpans items (fun _ => block) markedBlocks := by
  have only {h : Grammar Unit Item String}
      (included : Includes (fun _ => block) markedBlocks h) : CapturesOnly h :=
    capturesOnly_markedBlocks.of_reaches (fun _ => capturesOnly_block) included.reaches
  refine ⟨fun v p included => ?_, fun f p included => ?_, fun f included => ?_, ?_⟩
  · exact nomatch only included
  · exact nomatch only included
  · obtain ⟨n, taken⟩ := only included
    have captures : (run (fun _ => block) 0 (take n)).Captures items [] Value.spans :=
      captures_take [] 0 n
    rw [← taken] at captures
    exact captures
  · intro p next included depth _ value _
    obtain rfl := only included
    exact captures_take value.spans depth value.amount

/-- Characters of two units each, with gaps of one unit between them. -/
def spaced (text : List Char) : Array (Spanned Item) :=
  (text.mapIdx fun i c => ⟨.char c, ⟨3 * i, 3 * i + 2⟩⟩).toArray

theorem inOrder_spaced (text : List Char) : InOrder (spaced text) where
  item i x found := by
    simp only [spaced, List.getElem?_toArray, List.getElem?_mapIdx, Option.map_eq_some_iff] at found
    obtain ⟨c, -, rfl⟩ := found
    exact Nat.le_add_right _ 2
  next i x y first second := by
    simp only [spaced, List.getElem?_toArray, List.getElem?_mapIdx, Option.map_eq_some_iff]
      at first second
    obtain ⟨c, -, rfl⟩ := first
    obtain ⟨d, -, rfl⟩ := second
    show 3 * i + 2 ≤ 3 * (i + 1)
    omega

def spacedStart (text : List Char) (fits : text.length ≤ maxOffset) : Cursor Item where
  items := spaced text
  position := 0
  source := none
  position_le := Nat.zero_le _
  size_le := by simpa [spaced] using fits

/-- Two blocks, of which only the first one has a mark behind it. -/
def spacedBlocks : Cursor Item := spacedStart ",2ab;,(1c),x".toList (by decide)

def spacedUnclosed : Cursor Item := spacedStart ",2ab;,(1c,x".toList (by decide)

/-- Whether marked blocks match with these spans. -/
def marksCapture (c : Cursor Item) (spans : List Span) : Bool :=
  (run (fun _ => block) 3 markedBlocks c).any fun r =>
    match r.outcome with
    | .matched v _ => decide (v.spans = spans)
    | _ => false

/-- Whether marked blocks fail where a requirement is missed at a position. -/
def marksMissAt (c : Cursor Item) (position : Nat) : Bool :=
  (run (fun _ => block) 3 markedBlocks c).any fun r =>
    match r.outcome with
    | .errored _ s => decide (.requirementMissed position s ∈ r.log)
    | _ => false

/-- Two blocks are captured, a mark, and the empty span of the mark that is missing.
Without the closing bracket, an error is reported. -/
theorem captured_spans_inside_marked :
    (∃ v d log,
      run (fun _ => block) 3 markedBlocks spacedBlocks = some ⟨.matched v d, log⟩ ∧
        v.spans = [⟨3, 14⟩, ⟨12, 14⟩, ⟨18, 29⟩, ⟨30, 30⟩] ∧
        ∀ s ∈ v.spans, s.start ≤ s.stop ∧ spacedBlocks.offset ≤ s.start ∧ s.stop ≤ d.offset) ∧
    ∃ e s log,
      run (fun _ => block) 3 markedBlocks spacedUnclosed = some ⟨.errored e s, log⟩ ∧
        .requirementMissed 9 s ∈ log ∧ s.start ≤ s.stop := by
  constructor
  · have captured :
        marksCapture spacedBlocks [⟨3, 14⟩, ⟨12, 14⟩, ⟨18, 29⟩, ⟨30, 30⟩] = true := by
      decide +kernel
    obtain ⟨⟨⟨v, d⟩ | _ | _, log⟩, found, spans⟩ := (Option.any_eq_true _ _).mp captured
    · have inside := captured_spans_inside (inOrder_spaced _) (addsNoSpans_markedBlocks _) found
      exact ⟨v, d, log, found, of_decide_eq_true spans, inside.1 v d rfl⟩
    · exact nomatch spans
    · exact nomatch spans
  · have reported : marksMissAt spacedUnclosed 9 = true := by decide +kernel
    obtain ⟨⟨_ | _ | ⟨e, s⟩, log⟩, found, missed⟩ := (Option.any_eq_true _ _).mp reported
    · exact nomatch missed
    · exact nomatch missed
    · have inside := captured_spans_inside (inOrder_spaced _) (addsNoSpans_markedBlocks _) found
      have mem : .requirementMissed 9 s ∈ log := of_decide_eq_true missed
      exact ⟨e, s, log, found, mem, inside.2 e s 9 rfl mem⟩

end Grammar

end SpannedParsing
