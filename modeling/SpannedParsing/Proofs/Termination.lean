import SpannedParsing.Proofs.CallDepth
import SpannedParsing.Proofs.LeftRecursion

/-!
# Grammars without left recursion terminate

If the rules of a table can be ranked so that they lead to rules of smaller rank only,
every parse terminates: a call stands further on than the call around it, or at the same
position with a smaller rank. Repetitions and separated lists need no rank. They go round only
while they move on, also where their bodies match nothing.
-/
namespace SpannedParsing

variable {ρ ι α β σ ε : Type}

namespace Parser

/-- From some depth on, the parsers give this reply at the cursor. -/
def EndsWith (p : Nat → Parser ι α ε) (c : Cursor ι) (r : Reply ι α ε) : Prop :=
  ∃ depth, ∀ m, depth ≤ m → p m c = some r

/-- From some depth on, the parsers give one and the same reply at the cursor. -/
def Ends (p : Nat → Parser ι α ε) (c : Cursor ι) : Prop := ∃ r, EndsWith p c r

theorem ends_of_forall {p : Nat → Parser ι α ε} {c : Cursor ι} {r : Reply ι α ε}
    (h : ∀ m, p m c = some r) : Ends p c :=
  ⟨r, 0, fun m _ => h m⟩

section Combinators

variable {p q : Nat → Parser ι α ε} {c : Cursor ι}

theorem ends_branch {hit : Nat → α → Parser ι β ε} {other : Nat → Parser ι β ε}
    (hp : Ends p c)
    (hh : ∀ a rest log, EndsWith p c ⟨.matched a rest, log⟩ → Ends (fun m => hit m a) rest)
    (ho : Ends other c) : Ends (fun m => (p m).branch (hit m) (other m)) c := by
  obtain ⟨⟨⟨a, rest⟩ | _ | ⟨e, s⟩, log⟩, found⟩ := hp
  · obtain ⟨r, depth', after⟩ := hh a rest log found
    obtain ⟨depth, found⟩ := found
    refine ⟨r.after log, max depth depth', ?_⟩
    intro m deep
    dsimp only at after ⊢
    rw [branch_matched (found m (by omega)), after m (by omega)]
    rfl
  · obtain ⟨r, depth', after⟩ := ho
    obtain ⟨depth, found⟩ := found
    refine ⟨r.after log, max depth depth', ?_⟩
    intro m deep
    dsimp only
    rw [branch_noMatch (found m (by omega)), after m (by omega)]
    rfl
  · obtain ⟨depth, found⟩ := found
    refine ⟨⟨.errored e s, log⟩, depth, ?_⟩
    intro m deep
    exact branch_errored (found m deep)

theorem ends_andThen {next : Nat → α → Parser ι β ε} (hp : Ends p c)
    (hn : ∀ a rest log, EndsWith p c ⟨.matched a rest, log⟩ → Ends (fun m => next m a) rest) :
    Ends (fun m => (p m).andThen (next m)) c :=
  ends_branch hp hn (ends_of_forall fun _ => miss_apply c)

theorem ends_orElse (hp : Ends p c) (hq : Ends q c) :
    Ends (fun m => (p m).orElse (q m)) c :=
  ends_branch hp (fun a rest _ _ => ends_of_forall fun _ => succeed_apply a rest) hq

theorem ends_map (f : α → β) (hp : Ends p c) : Ends (fun m => (p m).map f) c :=
  ends_andThen hp fun a rest _ _ => ends_of_forall fun _ => succeed_apply (f a) rest

theorem ends_firstOf {κ : Type} {f : Nat → κ → Parser ι α ε} (ks : List κ)
    (h : ∀ k ∈ ks, Ends (fun m => f m k) c) :
    Ends (fun m => Parser.firstOf (ks.map (f m))) c := by
  induction ks with
  | nil => exact ends_of_forall fun _ => miss_apply c
  | cons k ks ih =>
    have others := ih fun j mem => h j (List.mem_cons_of_mem k mem)
    exact ends_orElse (h k List.mem_cons_self) others

theorem ends_check (test : α → Bool) (hp : Ends p c) : Ends (fun m => (p m).check test) c := by
  apply ends_andThen hp
  intro a rest _ _
  cases test a with
  | true => exact ends_of_forall fun _ => succeed_apply a rest
  | false => exact ends_of_forall fun _ => miss_apply rest

theorem ends_spanned (hp : Ends p c) : Ends (fun m => (p m).spanned) c :=
  ends_andThen hp fun _ _ _ _ => ends_of_forall fun _ => rfl

/-- A repetition ends, if its body ends there and further on. -/
theorem ends_repeated (n : Nat) (hb : ∀ d : Cursor ι, c.position ≤ d.position → Ends p d) :
    Ends (fun m => (p m).repeated n) c := by
  induction c using Cursor.inductAhead generalizing n with
  | ind c ih =>
    obtain ⟨⟨⟨a, rest⟩ | _ | ⟨e, s⟩, events⟩, depth, found⟩ := hb c (Nat.le_refl _)
    · by_cases moved : c.position < rest.position
      · have later : ∀ d : Cursor ι, rest.position ≤ d.position → Ends p d := fun d le =>
          hb d (by omega)
        obtain ⟨r, depth', more⟩ := ih rest moved (n - 1) later
        refine ⟨⟨r.outcome.map (a :: ·), events ++ r.log⟩, max depth depth', ?_⟩
        intro m deep
        dsimp only at more ⊢
        rw [repeated_apply, found m (by omega)]
        simp only [if_pos moved]
        rw [more m (by omega)]
        rfl
      · refine ⟨⟨enough n [] c, events ++ [.noProgress c.position]⟩, depth, ?_⟩
        intro m deep
        dsimp only
        rw [repeated_apply, found m deep]
        simp only [if_neg moved]
    · refine ⟨⟨enough n [] c, events⟩, depth, ?_⟩
      intro m deep
      dsimp only
      rw [repeated_apply, found m deep]
    · refine ⟨⟨.errored e s, events⟩, depth, ?_⟩
      intro m deep
      dsimp only
      rw [repeated_apply, found m deep]

theorem ends_skipIf {s : Nat → Parser ι σ ε} (allowed : Bool)
    (hs : allowed = true → Ends s c) : Ends (fun m => skipIf allowed (s m)) c := by
  cases allowed with
  | false => exact ends_of_forall fun _ => succeed_apply () c
  | true =>
    refine ends_branch (hs rfl) ?_ (ends_of_forall fun _ => succeed_apply () c)
    exact fun _ rest _ _ => ends_of_forall fun _ => succeed_apply () rest

theorem EndsWith.position_le {a : α} {rest : Cursor ι} {log : List Event}
    (found : EndsWith p c ⟨.matched a rest, log⟩) (back : ∀ m, (p m).Ensures neverBack) :
    c.position ≤ rest.position := by
  obtain ⟨depth, found⟩ := found
  exact (back depth).position_le (found depth (Nat.le_refl _))

/-- A separated list ends, if its item ends there and further on, and its separator ends
behind every item and, where it may stand in front, at the start. -/
theorem ends_separated {s : Nat → Parser ι σ ε} (form : ListForm)
    (back : ∀ m, (p m).Ensures neverBack) (back' : ∀ m, (s m).Ensures neverBack)
    (items : ∀ d : Cursor ι, c.position ≤ d.position → Ends p d)
    (opening : form.leading = true → Ends s c)
    (separators : ∀ (d : Cursor ι) a rest log, c.position ≤ d.position →
      EndsWith p d ⟨.matched a rest, log⟩ →
        ∀ e : Cursor ι, rest.position ≤ e.position → Ends s e) :
    Ends (fun m => (p m).separated (s m) form) c := by
  have skips (allowed : Bool) (m : Nat) : (skipIf allowed (s m)).Ensures neverBack :=
    (back' m).skipIf neverBack_composes allowed
  have pairsBack (m : Nat) : (pairs (p m) (s m) form).Ensures neverBack :=
    ((back' m).andThen neverBack_composes fun _ => back m).repeated neverBack_composes _
  refine ends_andThen (ends_skipIf form.leading opening) ?_
  intro _ start _ skipped
  have le_start := skipped.position_le (skips form.leading)
  refine ends_branch (items start le_start) ?_ (ends_of_forall fun _ => rfl)
  intro first rest _ found
  have le_rest := found.position_le back
  have separator := separators start first rest _ le_start found
  have more : Ends (fun m => pairs (p m) (s m) form) rest := by
    refine ends_repeated _ ?_
    intro d le_d
    refine ends_andThen (separator d le_d) ?_
    intro _ e _ between
    have le_e := between.position_le back'
    exact items e (by omega)
  refine ends_branch more ?_ (ends_of_forall fun _ => tooShort_apply _ rest)
  intro _ last _ matched
  have le_last := matched.position_le pairsBack
  exact ends_map _ (ends_skipIf form.trailing fun _ => separator last le_last)

end Combinators

end Parser

namespace Grammar

/-- The grammar itself, its parts and all rules of the table, with their parts. -/
def Within (table : ρ → Grammar ρ ι ε) (g h : Grammar ρ ι ε) : Prop :=
  Includes table g h ∨ ∃ r, Includes table (.call r) h

theorem Within.self (table : ρ → Grammar ρ ι ε) (g : Grammar ρ ι ε) : Within table g g :=
  .inl (.refl table g)

theorem Within.rule (table : ρ → Grammar ρ ι ε) (g : Grammar ρ ι ε) (r : ρ) :
    Within table g (table r) :=
  .inr ⟨r, (Includes.refl table (.call r)).part rfl⟩

theorem Within.part {table : ρ → Grammar ρ ι ε} {g h k : Grammar ρ ι ε}
    (inside : Within table g h) (part : HasPart table h k) : Within table g k := by
  rcases inside with included | ⟨r, included⟩
  · exact .inl (included.part part)
  · exact .inr ⟨r, included.part part⟩

/-- What holds everywhere in a grammar and in the rules, and of all calls, holds within. -/
theorem Within.of_everywhere {P : Grammar ρ ι ε → Prop} {table : ρ → Grammar ρ ι ε}
    {g h : Grammar ρ ι ε} (calls : ∀ r, P (.call r)) (rules : ∀ r, Everywhere P (table r))
    (all : Everywhere P g) (inside : Within table g h) : P h := by
  rcases inside with included | ⟨r, included⟩
  · exact all.of_reaches rules included.reaches
  · have called : Everywhere P (.call r) := calls r
    exact called.of_reaches rules included.reaches

variable [DecidableEq ι]

/-- The parse with a grammar over a table of rules ends with a reply. -/
def Terminates (table : ρ → Grammar ρ ι ε) (g : Grammar ρ ι ε) (c : Cursor ι) : Prop :=
  ∃ depth r, run table depth g c = some r

/-- More depth keeps a reply, so a parse that ends gives it from some depth on. -/
theorem ends_run_iff {table : ρ → Grammar ρ ι ε} {g : Grammar ρ ι ε} {c : Cursor ι} :
    Parser.Ends (fun m => run table m g) c ↔ Terminates table g c := by
  constructor
  · rintro ⟨r, depth, found⟩
    exact ⟨depth, r, found depth (Nat.le_refl _)⟩
  · rintro ⟨depth, r, found⟩
    exact ⟨r, depth, fun m deep => run_mono table deep g c r found⟩

/-- The contexts of a grammar terminate: whenever the part in front of a context has
matched, the grammar that is chosen terminates at the cursor after it. The rules may be
assumed to do so at all positions behind the one where that part started. -/
def ContextsTerminate (table : ρ → Grammar ρ ι ε) (family : Grammar ρ ι ε → Prop) : Prop :=
  ∀ p next, family (.withContext p next) → ∀ start depth value rest log,
    run table depth p start = some ⟨.matched value rest, log⟩ →
    (∀ r d, start.position < d.position → Terminates table (.call r) d) →
    Terminates table (next value rest) rest

/-- The rules that a grammar may call from position `k` on terminate: at later positions all
of them, and at `k` itself those that the grammar leads to. -/
structure Ready (table : ρ → Grammar ρ ι ε) (h : Grammar ρ ι ε) (k : Nat) : Prop where
  later : ∀ r d, k < d.position → Terminates table (.call r) d
  here : ∀ r, Leads table h (.call r) → ∀ d, d.position = k → Terminates table (.call r) d

namespace Ready

variable {table : ρ → Grammar ρ ι ε} {h p q : Grammar ρ ι ε} {k : Nat}

theorem part (ready : Ready table h k) (opens : Opens table h p) : Ready table p k where
  later := ready.later
  here r leads := ready.here r (.head opens leads)

/-- Further on, every grammar may run. -/
theorem further (ready : Ready table h k) {j : Nat} (ahead : k < j) : Ready table p j where
  later r d place := ready.later r d (by omega)
  here r _ d place := ready.later r d (by omega)

/-- Behind a match of one part, the next one may run. Either the match has moved on, or
the first part does not always move on and the next one may run at the start too. -/
theorem behind (ready : Ready table h k) {c rest : Cursor ι} (le_c : k ≤ c.position)
    {value : Value ι} {log : List Event}
    (found : Parser.EndsWith (fun m => run table m p) c ⟨.matched value rest, log⟩)
    (back : c.position ≤ rest.position) (opens : ¬ StrictlyAdvances table p → Opens table h q) :
    ∃ j, j ≤ rest.position ∧ Ready table q j := by
  by_cases moved : k < rest.position
  · exact ⟨rest.position, Nat.le_refl _, ready.further moved⟩
  · have stands : ¬ StrictlyAdvances table p := by
      intro advances
      obtain ⟨depth, found⟩ := found
      have ahead := advances depth c value rest log (found depth (Nat.le_refl _))
      omega
    exact ⟨k, by omega, ready.part (opens stands)⟩

end Ready

variable {table : ρ → Grammar ρ ι ε} {family : Grammar ρ ι ε → Prop}

/-- A grammar terminates, if the rules that it may call do. -/
theorem ends_part (own : OwnReplies neverBack table family)
    (contexts : ContextsTerminate table family) {k : Nat} (h : Grammar ρ ι ε)
    (member : family h) (ready : Ready table h k) {c : Cursor ι} (le_c : k ≤ c.position) :
    Parser.Ends (fun m => run table m h) c := by
  have back {p : Grammar ρ ι ε} (inside : family p) (m : Nat) :
      (run table m p).Ensures neverBack :=
    ensures_run neverBack_composes own inside m
  induction h using Grammar.induct generalizing k c with
  | just | oneOf | satisfy | sequence | finish =>
    exact Parser.ends_map _ (Parser.ends_of_forall fun _ => rfl)
  | answer f => exact Parser.ends_of_forall fun _ => rfl
  | both joining p q hp hq =>
    have first := own.parts _ p member (Or.inl rfl)
    have second := own.parts _ q member (Or.inr rfl)
    refine Parser.ends_andThen (hp first (ready.part (Or.inl rfl)) le_c) ?_
    intro a rest log found
    obtain ⟨j, le_rest, later⟩ := ready.behind le_c found (found.position_le (back first))
      fun stands => Or.inr ⟨rfl, stands⟩
    exact Parser.ends_map _ (hq second later le_rest)
  | orElse p q hp hq =>
    have first := hp (own.parts _ p member (Or.inl rfl)) (ready.part (Or.inl rfl)) le_c
    have second := hq (own.parts _ q member (Or.inr rfl)) (ready.part (Or.inr rfl)) le_c
    exact Parser.ends_orElse first second
  | firstOf ps hps =>
    have alternatives : (fun m => run table m (.firstOf ps)) =
        fun m => Parser.firstOf (ps.map (run table m)) := funext fun _ => denote_firstOf _ ps
    rw [alternatives]
    refine Parser.ends_firstOf ps ?_
    intro p mem
    exact hps p mem (own.parts _ p member mem) (ready.part mem) le_c
  | maybe fallback p hp =>
    have part := hp (own.parts _ p member rfl) (ready.part rfl) le_c
    refine Parser.ends_branch part ?_ (Parser.ends_of_forall fun _ => rfl)
    exact fun a rest _ _ => Parser.ends_of_forall fun _ => rfl
  | require p e hp =>
    have part := hp (own.parts _ p member rfl) (ready.part rfl) le_c
    exact Parser.ends_orElse part (Parser.ends_of_forall fun _ => rfl)
  | spanned p hp =>
    have part := hp (own.parts _ p member rfl) (ready.part rfl) le_c
    exact Parser.ends_map _ (Parser.ends_spanned part)
  | map f p hp =>
    have part := hp (own.parts _ p member rfl) (ready.part rfl) le_c
    exact Parser.ends_map f part
  | check p test hp =>
    have part := hp (own.parts _ p member rfl) (ready.part rfl) le_c
    exact Parser.ends_check test part
  | repeated p n hp =>
    refine Parser.ends_map _ (Parser.ends_repeated n ?_)
    intro d le_d
    exact hp (own.parts _ p member rfl) (ready.part rfl) (by omega)
  | separated item separator form hi hs =>
    have inside := own.parts _ item member (Or.inl rfl)
    have inside' := own.parts _ separator member (Or.inr rfl)
    refine Parser.ends_map _ (Parser.ends_separated form (back inside) (back inside') ?_ ?_ ?_)
    · intro d le_d
      exact hi inside (ready.part (Or.inl rfl)) (by omega)
    · intro leading
      exact hs inside' (ready.part (Or.inr ⟨rfl, Or.inl leading⟩)) le_c
    · intro d a rest log le_d found e le_e
      obtain ⟨j, le_rest, later⟩ := ready.behind (by omega) found
        (found.position_le (back inside)) fun stands => Or.inr ⟨rfl, Or.inr stands⟩
      exact hs inside' later (by omega)
  | withContext p next hp hnext =>
    simp only [run, denote_withContext]
    refine Parser.ends_andThen (hp (own.parts _ p member rfl) (ready.part rfl) le_c) ?_
    intro a rest log found
    obtain ⟨depth, found⟩ := found
    have later : ∀ r d, c.position < d.position → Terminates table (.call r) d :=
      fun r d ahead => ready.later r d (by omega)
    have chosen := contexts p next member c depth a rest log (found depth (Nat.le_refl _)) later
    exact Parser.ends_map (Value.pair a) (ends_run_iff.mpr chosen)
  | call r =>
    rw [ends_run_iff]
    by_cases moved : k < c.position
    · exact ready.later r c moved
    · exact ready.here r .refl c (by omega)

/-- All rules terminate: from call to call the position goes up or the rank goes down. -/
theorem terminates_rule (own : OwnReplies neverBack table family)
    (contexts : ContextsTerminate table family) (rules : ∀ r, family (table r))
    (rank : ρ → Nat) (ranked : ∀ r s, Leads table (table r) (.call s) → rank s < rank r)
    (r : ρ) (c : Cursor ι) : Terminates table (.call r) c := by
  induction c using Cursor.inductAhead generalizing r with
  | ind c later =>
    induction level : rank r using Nat.strongRecOn generalizing r c with
    | ind j lower =>
      have ready : Ready table (table r) c.position := by
        refine { later := fun s d ahead => later d ahead s, here := fun s leads d same => ?_ }
        have less : rank s < j := level ▸ ranked r s leads
        exact lower (rank s) less d (fun e ahead => later e (same ▸ ahead)) s rfl
      have body := ends_part own contexts (table r) (rules r) ready (Nat.le_refl _)
      obtain ⟨depth, x, found⟩ := ends_run_iff.mp body
      exact ⟨depth + 1, x, found⟩

theorem terminates_run (own : OwnReplies neverBack table family)
    (contexts : ContextsTerminate table family) (rules : ∀ r, family (table r))
    (rank : ρ → Nat) (ranked : ∀ r s, Leads table (table r) (.call s) → rank s < rank r)
    {g : Grammar ρ ι ε} (member : family g) (c : Cursor ι) : Terminates table g c := by
  have ended := terminates_rule own contexts rules rank ranked
  have ready : Ready table g c.position :=
    { later := fun r d _ => ended r d
      here := fun r _ d _ => ended r d }
  exact ends_run_iff.mp (ends_part own contexts g member ready (Nat.le_refl _))

theorem ownReplies_within {table : ρ → Grammar ρ ι ε} {g : Grammar ρ ι ε}
    (answers : ∀ f, Within table g (.answer f) → (Parser.ofOutcome f).Ensures neverBack)
    (contexts : ContextsKeep (fun p => p.Ensures neverBack) table (Within table g)) :
    OwnReplies neverBack table (Within table g) where
  parts _ _ inside part := inside.part part
  unmet _ e _ := neverBack_unmet e
  answer := answers
  context := contexts

/-- Recursive grammars without left recursion terminate. Let what a rule of a finite table can
call before anything is consumed have a smaller rank, and let contexts terminate and not go
back. Then the parts that are seen to advance do so, and the parse ends with a reply at every
cursor; `parse` finds it, if the grammar stays on its input. -/
theorem terminates_of_ranked {n : Nat} {table : Fin n → Grammar (Fin n) ι ε}
    {g : Grammar (Fin n) ι ε}
    (answers : ∀ f, Within table g (.answer f) → (Parser.ofOutcome f).Ensures neverBack)
    (contexts : ContextsKeep (fun p => p.Ensures neverBack) table (Within table g))
    (ending : ContextsTerminate table (Within table g))
    (rank : Fin n → Nat) (ranked : ∀ r s, Leads table (table r) (.call s) → rank s < rank r)
    (c : Cursor ι) :
    (∀ h, Within table g h → h.consuming = true → StrictlyAdvances table h) ∧
      ∃ r, (∃ depth, ∀ m, depth ≤ m → run table m g c = some r) ∧
        (StaysOnInput table g → parse table g c = some r) := by
  have own := ownReplies_within answers contexts
  refine ⟨strictlyAdvances_of_consuming own, ?_⟩
  have ended := terminates_run own ending (.rule table g) rank ranked (.self table g) c
  obtain ⟨r, depth, found⟩ := ends_run_iff.mpr ended
  refine ⟨r, ⟨depth, found⟩, ?_⟩
  intro stays
  exact parse_of_run stays (found depth (Nat.le_refl _))

/-- A group: a digit and as many items as it says, or a group in brackets, of which the
closing one has to be there. -/
def groupRules : Fin 2 → Grammar (Fin 2) Item String
  | 0 => .orElse (.call 1)
    (delimited (.call 0) (.just (.char '(')) (.require (.just (.char ')')) "unclosed"))
  | 1 => .withContext (.satisfy Item.isDigit) fun value _ => counted value

/-- Groups in a row, where each round may also match nothing. -/
def groups : Grammar (Fin 2) Item String := .repeated (.maybe .option (.call 0)) 0

def threeGroups : Cursor Item := startOf "1a((2bc))(3d".toList (by decide)

theorem onlyCounts_groupRules (r : Fin 2) : Everywhere OnlyCounts (groupRules r) := by
  match r with
  | 0 => simp [groupRules, delimited, Everywhere, OnlyCounts]
  | 1 => exact ⟨rfl, trivial, fun value _ => ⟨value.amount, rfl⟩⟩

theorem onlyCounts_groups : Everywhere OnlyCounts groups := by
  simp [groups, Everywhere, OnlyCounts]

theorem onlyCounts_of_within {h : Grammar (Fin 2) Item String}
    (inside : Within groupRules groups h) : OnlyCounts h :=
  inside.of_everywhere (fun _ => trivial) onlyCounts_groupRules onlyCounts_groups

/-- Groups call groups in brackets, and these lead nowhere. The parse ends, though the
rounds may match nothing and the last group is not complete. -/
theorem terminates_of_ranked_groups :
    (∀ r s, Leads groupRules (groupRules r) (.call s) → 1 - s.val < 1 - r.val) ∧
    ∃ r, (∃ depth, ∀ m, depth ≤ m → run groupRules m groups threeGroups = some r) ∧
      parse groupRules groups threeGroups = some r := by
  have answers : ∀ f, Within groupRules groups (.answer f) →
      (Parser.ofOutcome f).Ensures neverBack := by
    intro f inside
    exact (onlyCounts_of_within inside).answer groupRules (fun p => p.Ensures neverBack)
      (ensures_take neverBack_composes 0)
  have contexts : ContextsKeep (fun p => p.Ensures neverBack) groupRules
      (Within groupRules groups) :=
    OnlyCounts.contexts (fun _ => onlyCounts_of_within) (ensures_take neverBack_composes)
  have ending : ContextsTerminate groupRules (Within groupRules groups) := by
    intro p next inside start depth value rest log _ _
    obtain rfl := onlyCounts_of_within inside
    exact ⟨0, _, rfl⟩
  have ranked : ∀ r s, Leads groupRules (groupRules r) (.call s) → 1 - s.val < 1 - r.val := by
    intro r s leads
    have own := ownReplies_within answers contexts
    have seen := mem_leading_of_leads own (.rule groupRules groups r) leads
    have checked : ∀ r s, s ∈ (groupRules r).leading → 1 - s.val < 1 - r.val := by decide
    exact checked r s seen
  have stays : StaysOnInput groupRules groups := by
    intro f reached c value d matched
    obtain ⟨n, taken⟩ := onlyCounts_groups.of_reaches onlyCounts_groupRules reached
    rw [advance_of_take taken matched]
    exact ⟨rfl, rfl⟩
  obtain ⟨-, r, ended, found⟩ := terminates_of_ranked answers contexts ending
    (fun r => 1 - r.val) ranked threeGroups
  exact ⟨ranked, r, ended, found stays⟩

end Grammar

end SpannedParsing
