import SpannedParsing.Proofs.ListComposition
import SpannedParsing.Proofs.Reach

/-!
# Properties of all replies

A property of replies that does not look at the value found is kept by every
combinator if it is kept by a few steps: staying, advancing, missing, the two
reports of lists and repetitions, going on after a match, and trying again after
a miss. `Composes` asks for these steps. What is left of a whole grammar are its
required parts, the outcomes that it computes on its own and its contexts: if these
have the property, so has every reply of the grammar, however its rules call each
other (`ensures_run`).
-/
namespace SpannedParsing

variable {ρ ι α β σ ε : Type}

/-- A property of the cursor where a parser ran, of the outcome without its
value, and of the events. -/
abbrev ReplyProperty (ι ε : Type) : Type := Cursor ι → Outcome ι Unit ε → List Event → Prop

def Outcome.bare (o : Outcome ι α ε) : Outcome ι Unit ε := o.map fun _ => ()

@[simp] theorem Outcome.bare_matched (a : α) (c : Cursor ι) :
    (matched a c : Outcome ι α ε).bare = matched () c := rfl

@[simp] theorem Outcome.bare_noMatch : (noMatch : Outcome ι α ε).bare = noMatch := rfl

@[simp] theorem Outcome.bare_errored (e : ε) (s : Span) :
    (errored e s : Outcome ι α ε).bare = errored e s := rfl

@[simp] theorem Outcome.bare_map (f : α → β) (o : Outcome ι α ε) : (o.map f).bare = o.bare := by
  cases o <;> rfl

/-- The steps that all combinators are made of keep the property. -/
structure ReplyProperty.Composes (Q : ReplyProperty ι ε) : Prop where
  stay : ∀ c, Q c (.matched () c) []
  advance : ∀ c n, Q c (.matched () (c.advance n)) []
  miss : ∀ c, Q c .noMatch []
  short : ∀ c n, Q c .noMatch [.listTooShort c.position n]
  stall : ∀ c, Q c (.matched () c) [.noProgress c.position]
  goOn : ∀ {c d o l m}, Q c (.matched () d) l → Q d o m → Q c o (l ++ m)
  retry : ∀ {c o l m}, Q c .noMatch l → Q c o m → Q c o (l ++ m)

/-- A match that is not used counts as a miss. -/
theorem ReplyProperty.Composes.drop {Q : ReplyProperty ι ε} (hQ : Q.Composes)
    {c d : Cursor ι} {l : List Event} (h : Q c (.matched () d) l) : Q c .noMatch l := by
  simpa using hQ.goOn h (hQ.miss d)

namespace Parser

/-- Every reply of the parser has the property. -/
def Ensures (p : Parser ι α ε) (Q : ReplyProperty ι ε) : Prop :=
  ∀ c r, p c = some r → Q c r.outcome.bare r.log

theorem ensures_ofOutcome {Q : ReplyProperty ι ε} {f : Cursor ι → Outcome ι α ε}
    (h : ∀ c, Q c (f c).bare []) : (ofOutcome f).Ensures Q := by
  intro c r hr
  obtain rfl := Option.some.inj hr
  exact h c

theorem ensures_succeed {Q : ReplyProperty ι ε} (hQ : Q.Composes) (a : α) :
    (succeed a : Parser ι α ε).Ensures Q :=
  ensures_ofOutcome hQ.stay

theorem ensures_miss {Q : ReplyProperty ι ε} (hQ : Q.Composes) :
    (miss : Parser ι α ε).Ensures Q :=
  ensures_ofOutcome hQ.miss

theorem ensures_tooShort {Q : ReplyProperty ι ε} (hQ : Q.Composes) (n : Nat) :
    (tooShort n : Parser ι α ε).Ensures Q := by
  intro c r hr
  obtain rfl := Option.some.inj hr
  exact hQ.short c n

namespace Ensures

variable {Q : ReplyProperty ι ε}

theorem branch (hQ : Q.Composes) {p : Parser ι α ε} {hit : α → Parser ι β ε}
    {other : Parser ι β ε} (hp : p.Ensures Q) (hh : ∀ a, (hit a).Ensures Q)
    (ho : other.Ensures Q) : (p.branch hit other).Ensures Q := by
  intro c r hr
  rcases found : p c with _ | ⟨⟨a, rest⟩ | _ | ⟨e, s⟩, log⟩
  · simp [branch_none found] at hr
  · rw [branch_matched found, Option.map_eq_some_iff] at hr
    obtain ⟨x, hx, rfl⟩ := hr
    exact hQ.goOn (hp c _ found) (hh a rest x hx)
  · rw [branch_noMatch found, Option.map_eq_some_iff] at hr
    obtain ⟨x, hx, rfl⟩ := hr
    exact hQ.retry (hp c _ found) (ho c x hx)
  · rw [branch_errored found] at hr
    obtain rfl := Option.some.inj hr
    exact hp c _ found

theorem andThen (hQ : Q.Composes) {p : Parser ι α ε} {next : α → Parser ι β ε}
    (hp : p.Ensures Q) (hn : ∀ a, (next a).Ensures Q) : (p.andThen next).Ensures Q :=
  hp.branch hQ hn (ensures_miss hQ)

theorem orElse (hQ : Q.Composes) {p q : Parser ι α ε} (hp : p.Ensures Q) (hq : q.Ensures Q) :
    (p.orElse q).Ensures Q :=
  hp.branch hQ (ensures_succeed hQ) hq

theorem map (hQ : Q.Composes) {p : Parser ι α ε} (f : α → β) (hp : p.Ensures Q) :
    (p.map f).Ensures Q :=
  hp.andThen hQ fun a => ensures_succeed hQ (f a)

theorem firstOf (hQ : Q.Composes) {ps : List (Parser ι α ε)} (h : ∀ p ∈ ps, p.Ensures Q) :
    (Parser.firstOf ps).Ensures Q := by
  induction ps with
  | nil => exact ensures_miss hQ
  | cons p ps ih =>
    have tail := ih fun q hq => h q (by simp [hq])
    exact (h p (by simp)).orElse hQ tail

theorem check (hQ : Q.Composes) {p : Parser ι α ε} (test : α → Bool) (hp : p.Ensures Q) :
    (p.check test).Ensures Q := by
  apply hp.andThen hQ
  intro a
  split
  · exact ensures_succeed hQ a
  · exact ensures_miss hQ

theorem spanned {p : Parser ι α ε} (hp : p.Ensures Q) : p.spanned.Ensures Q := by
  intro c r hr
  rw [spanned_apply, Option.map_eq_some_iff] at hr
  obtain ⟨x, hx, rfl⟩ := hr
  have same := hp c x hx
  rcases x with ⟨_ | _ | _, log⟩ <;> exact same

/-- The rounds of a repetition go on after each other; the last one stays. -/
theorem repeated (hQ : Q.Composes) {body : Parser ι α ε} (n : Nat) (hb : body.Ensures Q) :
    (body.repeated n).Ensures Q := by
  intro c r hr
  have ended (m : Nat) (d : Cursor ι) (l : List Event) (stays : Q d (.matched () d) l)
      (misses : Q d .noMatch l) :
      Q d (enough m [] d : Outcome ι (List α) ε).bare l := by
    unfold enough
    split
    · exact misses
    · exact stays
  induction c using Cursor.inductAhead generalizing n r with
  | ind c ih =>
    rw [repeated_apply] at hr
    rcases found : body c with _ | ⟨⟨a, rest⟩ | _ | ⟨e, s⟩, events⟩
    · simp [found] at hr
    · have matched := hb c _ found
      simp only [found] at hr
      by_cases moved : c.position < rest.position
      · rw [if_pos moved, Option.map_eq_some_iff] at hr
        obtain ⟨x, hx, rfl⟩ := hr
        have tail := ih rest moved (n - 1) x hx
        simpa using hQ.goOn matched tail
      · rw [if_neg moved] at hr
        obtain rfl := Option.some.inj hr
        have missed := hQ.drop matched
        exact ended n c _ (hQ.retry missed (hQ.stall c)) (hQ.drop (hQ.retry missed (hQ.stall c)))
    · have missed := hb c _ found
      simp only [found] at hr
      obtain rfl := Option.some.inj hr
      exact ended n c _ (by simpa using hQ.retry missed (hQ.stay c)) missed
    · have failed := hb c _ found
      simp only [found] at hr
      obtain rfl := Option.some.inj hr
      exact failed

theorem skipIf (hQ : Q.Composes) {p : Parser ι σ ε} (allowed : Bool) (hp : p.Ensures Q) :
    (Parser.skipIf allowed p).Ensures Q := by
  cases allowed with
  | false => exact ensures_succeed hQ ()
  | true => exact hp.branch hQ (fun _ => ensures_succeed hQ ()) (ensures_succeed hQ ())

theorem separated (hQ : Q.Composes) {item : Parser ι α ε} {separator : Parser ι σ ε}
    (form : ListForm) (hi : item.Ensures Q) (hs : separator.Ensures Q) :
    (item.separated separator form).Ensures Q := by
  have more : (pairs item separator form).Ensures Q :=
    (hs.andThen hQ fun _ => hi).repeated hQ _
  have core : (skeleton item separator form (tooShort form.atLeast)).Ensures Q := by
    apply (hs.skipIf hQ form.leading).andThen hQ
    intro _
    apply hi.andThen hQ
    intro _
    exact more.branch hQ (fun _ => (hs.skipIf hQ form.trailing).map hQ _) (ensures_tooShort hQ _)
  rw [separated_eq_skeleton]
  split
  · exact core.orElse hQ (ensures_succeed hQ [])
  · exact core

end Ensures

theorem ensures_satisfy {Q : ReplyProperty ι ε} (hQ : Q.Composes) (test : ι → Bool) :
    (satisfy test : Parser ι ι ε).Ensures Q := by
  apply ensures_ofOutcome
  intro c
  rcases c.peek with _ | found
  · exact hQ.miss c
  · by_cases passed : test found.item
    · have moved : Q c (.matched () c.next) [] := hQ.advance c 1
      simpa [passed] using moved
    · simpa [passed] using hQ.miss c

theorem ensures_sequence [DecidableEq ι] {Q : ReplyProperty ι ε} (hQ : Q.Composes)
    (xs : List ι) : (sequence xs : Parser ι (List ι) ε).Ensures Q := by
  apply ensures_ofOutcome
  intro c
  split
  · exact hQ.advance c xs.length
  · exact hQ.miss c

theorem ensures_finish {Q : ReplyProperty ι ε} (hQ : Q.Composes) :
    (finish : Parser ι Unit ε).Ensures Q := by
  apply ensures_ofOutcome
  intro c
  split
  · exact hQ.stay c
  · exact hQ.miss c

end Parser

namespace Grammar

variable [DecidableEq ι] {Q : ReplyProperty ι ε} {table : ρ → Grammar ρ ι ε}
  {family : Grammar ρ ι ε → Prop}

/-- What is left to show of a family of grammars that has all their parts: the errors
of required parts, the outcomes that are computed from the cursor alone, and what
contexts go on with. -/
structure OwnReplies (Q : ReplyProperty ι ε) (table : ρ → Grammar ρ ι ε)
    (family : Grammar ρ ι ε → Prop) : Prop where
  parts : ∀ h part, family h → HasPart table h part → family part
  unmet : ∀ p e, family (.require p e) → Parser.Ensures (Parser.unmet e : Parser ι (Value ι) ε) Q
  answer : ∀ f, family (.answer f) → (Parser.ofOutcome f).Ensures Q
  context : ContextsKeep (fun p => p.Ensures Q) table family

/-- Every grammar of the family has the property, if the rules that are called have
it. -/
theorem ensures_part (hQ : Q.Composes) (own : OwnReplies Q table family) {depth : Nat}
    (rules : ∀ m, m ≤ depth → ∀ r, family (.call r) → (run table m (.call r)).Ensures Q)
    (h : Grammar ρ ι ε) (member : family h) : (run table depth h).Ensures Q := by
  unfold run
  induction h using Grammar.induct with
  | just x => exact (Parser.ensures_satisfy hQ _).map hQ _
  | oneOf xs => exact (Parser.ensures_satisfy hQ _).map hQ _
  | satisfy test => exact (Parser.ensures_satisfy hQ test).map hQ _
  | sequence xs => exact (Parser.ensures_sequence hQ xs).map hQ _
  | finish => exact (Parser.ensures_finish hQ).map hQ _
  | answer f => exact own.answer f member
  | both joining p q hp hq =>
    have first := hp (own.parts _ p member (Or.inl rfl))
    have second := hq (own.parts _ q member (Or.inr rfl))
    exact first.andThen hQ fun a => second.map hQ _
  | orElse p q hp hq =>
    have first := hp (own.parts _ p member (Or.inl rfl))
    exact first.orElse hQ (hq (own.parts _ q member (Or.inr rfl)))
  | firstOf ps hps =>
    rw [denote_firstOf]
    apply Parser.Ensures.firstOf hQ
    intro p hp
    obtain ⟨k, hk, rfl⟩ := List.mem_map.mp hp
    exact hps k hk (own.parts _ k member hk)
  | maybe fallback p hp =>
    have part := hp (own.parts _ p member rfl)
    exact part.branch hQ (fun _ => Parser.ensures_succeed hQ _) (Parser.ensures_succeed hQ _)
  | require p e hp =>
    have part := hp (own.parts _ p member rfl)
    exact part.orElse hQ (own.unmet p e member)
  | spanned p hp => exact (hp (own.parts _ p member rfl)).spanned.map hQ _
  | map f p hp => exact (hp (own.parts _ p member rfl)).map hQ f
  | check p test hp => exact (hp (own.parts _ p member rfl)).check hQ test
  | repeated p n hp => exact ((hp (own.parts _ p member rfl)).repeated hQ n).map hQ _
  | separated item separator form hi hs =>
    have items := hi (own.parts _ item member (Or.inl rfl))
    have separators := hs (own.parts _ separator member (Or.inr rfl))
    exact (items.separated hQ form separators).map hQ _
  | withContext p next hp hnext =>
    rw [denote_withContext]
    apply (hp (own.parts _ p member rfl)).andThen hQ
    intro a
    have chosen := own.context p next member depth rules a (hnext a)
    exact chosen.map hQ (Value.pair a)
  | call r => exact rules depth (Nat.le_refl depth) r member

/-- Every grammar of the family has the property, for every depth of calls. -/
theorem ensures_run (hQ : Q.Composes) (own : OwnReplies Q table family) {g : Grammar ρ ι ε}
    (member : family g) (depth : Nat) : (run table depth g).Ensures Q := by
  refine run_induction (P := fun p => p.Ensures Q) (fun r called => own.parts _ _ called rfl)
    ?_ ?_ member depth
  · intro c r found
    exact nomatch found
  · intro depth rules h
    exact ensures_part hQ own rules h

/-- Of all grammars that `g` reaches, only requirements and own outcomes are left. -/
theorem ownReplies_of_reaches {g : Grammar ρ ι ε}
    (unmet : ∀ p e, Reaches table g (.require p e) →
      Parser.Ensures (Parser.unmet e : Parser ι (Value ι) ε) Q)
    (answer : ∀ f, Reaches table g (.answer f) → (Parser.ofOutcome f).Ensures Q) :
    OwnReplies Q table (Reaches table g) where
  parts _ _ reached inside := reached.part inside
  unmet := unmet
  answer := answer
  context _ _ reached _ _ value chosen c r found := chosen c (reached.choice value c) c r found

theorem ensures_take (hQ : Q.Composes) (depth n : Nat) :
    (run table depth (take n)).Ensures Q := by
  apply Parser.ensures_ofOutcome
  intro c
  rw [answer_take (ρ := ρ) rfl]
  split
  · exact hQ.advance c n
  · exact hQ.miss c

end Grammar

def Quiet (log : List Event) : Prop := ∀ event ∈ log, event.isRequirement = false

namespace Quiet

theorem nil : Quiet [] := by simp [Quiet]

theorem append {l m : List Event} (hl : Quiet l) (hm : Quiet m) : Quiet (l ++ m) := by
  intro event h
  rcases List.mem_append.mp h with h | h
  · exact hl event h
  · exact hm event h

theorem countP_eq_zero {log : List Event} (h : Quiet log) :
    log.countP Event.isRequirement = 0 := by
  rw [List.countP_eq_zero]
  intro event he
  simp [h event he]

theorem not_mem {log : List Event} (h : Quiet log) (position : Nat) (span : Span) :
    Event.requirementMissed position span ∉ log := by
  intro he
  exact absurd (h _ he) (by simp [Event.isRequirement])

end Quiet

theorem quiet_composes :
    ReplyProperty.Composes fun (_ : Cursor ι) (o : Outcome ι Unit ε) log =>
      o.isErrored = false → Quiet log where
  stay c _ := .nil
  advance c n _ := .nil
  miss c _ := .nil
  short c n _ := by simp [Quiet, Event.isRequirement]
  stall c _ := by simp [Quiet, Event.isRequirement]
  goOn first second h := (first rfl).append (second h)
  retry first second h := (first rfl).append (second h)

/-- A missed requirement is an error: every other reply of a grammar is quiet. -/
theorem Grammar.quiet_run [DecidableEq ι] (table : ρ → Grammar ρ ι ε) (g : Grammar ρ ι ε)
    {depth : Nat} {c : Cursor ι} {r : Reply ι (Value ι) ε}
    (found : run table depth g c = some r) (ok : r.outcome.isErrored = false) : Quiet r.log := by
  refine ensures_run quiet_composes (ownReplies_of_reaches ?_ ?_) (.refl table g) depth c r
    found ?_
  · intro p e _ c r found failed
    obtain rfl := Option.some.inj found
    exact nomatch failed
  · intro f _
    exact Parser.ensures_ofOutcome fun c _ => .nil
  · obtain ⟨_ | _ | _, log⟩ := r
    · rfl
    · rfl
    · exact nomatch ok

end SpannedParsing
