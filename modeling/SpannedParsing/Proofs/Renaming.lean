import SpannedParsing.Proofs.Coupling

/-!
# Parsing commutes with renaming the items

Let the items of an input be renamed, and the items inside a grammar with them, so that no
two items become one. The parse then goes through the renamed input as it did through the
original one. It gives the same outcome, with the items inside the value renamed; the
position, the path, the captured spans, the error with its span and the events stay as
they are.

Items are compared with given ones and put to tests, and nothing else is done with them.
Tests may be changed in any way that keeps their answers on renamed items.

`Renamed` relates a grammar with its renamed forms. Grammars that compute with values or
cursors on their own are left out.
-/
namespace SpannedParsing

variable {ρ ι υ α α' ε : Type}

namespace Value

mutual

def rename (f : ι → υ) : Value ι → Value υ
  | unit => unit
  | bool b => bool b
  | item x => item (f x)
  | int n => int n
  | str text => str text
  | list values => list (renameAll f values)
  | pair first second => pair (rename f first) (rename f second)
  | present value => present (rename f value)
  | absent => absent
  | spanned value span => spanned (rename f value) span

def renameAll (f : ι → υ) : List (Value ι) → List (Value υ)
  | [] => []
  | value :: values => rename f value :: renameAll f values

end

variable (f : ι → υ)

theorem renameAll_eq_map (values : List (Value ι)) :
    renameAll f values = values.map (rename f) := by
  induction values with
  | nil => rfl
  | cons value values ih => rw [renameAll, ih, List.map_cons]

@[simp] theorem rename_list (values : List (Value ι)) :
    (list values).rename f = list (values.map (rename f)) := by
  rw [rename, renameAll_eq_map]

theorem rename_ofItems (xs : List ι) : (ofItems xs).rename f = ofItems (xs.map f) := by
  simp [ofItems, rename]

theorem elements_rename (value : Value ι) :
    (value.rename f).elements = value.elements.map (rename f) := by
  cases value with
  | list values => rw [rename_list]; rfl
  | unit | bool | item | int | str | pair | present | absent | spanned => rfl

theorem rename_ofSpanned (value : Spanned (Value ι)) :
    (ofSpanned value).rename f = ofSpanned (value.map (rename f)) := rfl

end Value

theorem Joining.rename_combine (f : ι → υ) (joining : Joining) (a b : Value ι) :
    (joining.combine a b).rename f = joining.combine (a.rename f) (b.rename f) := by
  cases joining with
  | cons => rw [combine, combine, Value.rename_list, Value.elements_rename, List.map_cons]
  | pair | right | left => rfl

namespace Fallback

def rename (f : ι → υ) : Fallback ι → Fallback υ
  | option => option
  | default value => default (value.rename f)
  | boolean => boolean

theorem rename_found (f : ι → υ) (fallback : Fallback ι) (value : Value ι) :
    (fallback.found value).rename f = (fallback.rename f).found (value.rename f) := by
  cases fallback <;> rfl

theorem rename_missing (f : ι → υ) (fallback : Fallback ι) :
    fallback.missing.rename f = (fallback.rename f).missing := by
  cases fallback <;> rfl

end Fallback

namespace Cursor

/-- The cursor at the same position among the renamed items. -/
def map (f : ι → υ) (c : Cursor ι) : Cursor υ where
  items := c.items.map (Spanned.map f)
  position := c.position
  source := c.source
  position_le := by simpa using c.position_le
  size_le := by simpa using c.size_le

variable (f : ι → υ) (c d : Cursor ι)

@[simp] theorem position_map : (c.map f).position = c.position := rfl

theorem left_map : (c.map f).left = c.left := by simp [left, map]

theorem peek_map : (c.map f).peek = c.peek.map (Spanned.map f) := by simp [peek, map]

theorem previous_map : (c.map f).previous = c.previous.map (Spanned.map f) := by
  rcases place : c.position with _ | index
  · simp [previous, place]
  · simp [previous, place, map]

theorem advance_map (n : Nat) : (c.map f).advance n = (c.advance n).map f := by
  ext1
  · rfl
  · simp [map]
  · rfl

theorem startSpan_map : (c.map f).startSpan = c.startSpan := by
  have first : (c.map f).items[0]? = c.items[0]?.map (Spanned.map f) := by simp [map]
  unfold startSpan
  rw [first]
  cases c.items[0]? <;> rfl

theorem lastSpan_map : (c.map f).lastSpan = c.lastSpan := by
  unfold lastSpan
  rw [previous_map, startSpan_map]
  cases c.previous <;> rfl

theorem offset_map : (c.map f).offset = c.offset := by
  unfold offset
  rw [peek_map, previous_map]
  cases c.peek <;> cases c.previous <;> rfl

theorem spanUntil_map : (c.map f).spanUntil (d.map f) = c.spanUntil d := by
  unfold spanUntil
  rw [position_map, position_map, peek_map, previous_map, offset_map]
  cases c.peek <;> cases d.previous <;> rfl

/-- Different items stay different, so the renamed items agree with a renamed stretch only
if the items did with the stretch. -/
theorem agrees_map [DecidableEq ι] [DecidableEq υ] {f : ι → υ} (inj : Function.Injective f)
    (xs : List ι) : (c.map f).agrees (xs.map f) = c.agrees xs := by
  induction xs generalizing c with
  | nil => rfl
  | cons x xs ih =>
    have tail : (c.map f).next.agrees (xs.map f) = c.next.agrees xs := by
      rw [next, advance_map]
      exact ih c.next
    rw [List.map_cons, agrees, agrees, peek_map]
    rcases c.peek with _ | found
    · rfl
    · simp [tail, inj.eq_iff]

end Cursor

theorem Input.start_map (f : ι → υ) (input : Input ι) : (input.map f).start = input.start.map f :=
  rfl

/-- The outcome with the items renamed, in the value and ahead of the cursor. -/
def Outcome.rename (f : ι → υ) : Outcome ι (Value ι) ε → Outcome υ (Value υ) ε
  | matched value rest => matched (value.rename f) (rest.map f)
  | noMatch => noMatch
  | errored error span => errored error span

/-- The reply with the items renamed. -/
def Reply.rename (f : ι → υ) (r : Reply ι (Value ι) ε) : Reply υ (Value υ) ε :=
  ⟨r.outcome.rename f, r.log⟩

/-- The second run is at the renamed cursor, and does the same as the first one. -/
def Coupling.renamed (f : ι → υ) : Coupling ι υ ε where
  cursor c d := c.map f = d
  log := Eq
  failure _ s l t m := s = t ∧ l = m

theorem Coupling.renamed_composes (f : ι → υ) : (renamed f : Coupling ι υ ε).Composes where
  left together := by rw [← together, Cursor.left_map]
  moved together later := by rw [← together, ← later, Cursor.position_map, Cursor.position_map]
  silent := rfl
  append first second := congrArg₂ (· ++ ·) first second
  short n together := by
    obtain rfl := together
    rfl
  stall together := by
    obtain rfl := together
    rfl
  later logs failed := ⟨failed.1, congrArg₂ (· ++ ·) logs failed.2⟩

namespace Parser

variable {f : ι → υ}

/-- Coupled parsers whose values are renamed give renamed replies. -/
theorem Coupled.eq_renamed {p : Parser ι (Value ι) ε} {p' : Parser υ (Value υ) ε}
    (h : Coupled (.renamed f) (fun v w => v.rename f = w) p p') (c : Cursor ι) :
    p' (c.map f) = (p c).map (Reply.rename f) := by
  have replies := h c (c.map f) rfl
  generalize p c = x at replies ⊢
  generalize p' (c.map f) = y at replies ⊢
  cases replies with
  | none => rfl
  | some replies =>
    cases replies with
    | matched value rest logs =>
      rw [← value, ← rest, ← logs]
      rfl
    | noMatch logs =>
      rw [← logs]
      rfl
    | errored failed =>
      rw [← failed.1, ← failed.2]
      rfl

/-- A test is put to one item at a time, and answers for the renamed item as before. -/
theorem coupled_satisfy_renamed {test : ι → Bool} {test' : υ → Bool}
    (same : ∀ x, test' (f x) = test x) :
    Coupled (.renamed f : Coupling ι υ ε) (fun x y => f x = y) (satisfy test)
      (satisfy test') := by
  rintro c _ rfl
  rw [satisfy_apply, satisfy_apply, Cursor.peek_map]
  rcases c.peek with _ | found
  · exact .some (.noMatch rfl)
  · simp only [Option.map_some, Spanned.item_map, same]
    split
    · exact .some (.matched rfl (Cursor.advance_map f c 1).symm rfl)
    · exact .some (.noMatch rfl)

theorem coupled_unmet_renamed {V : α → α' → Prop} (e : ε) :
    Coupled (.renamed f : Coupling ι υ ε) V (unmet e) (unmet e) := by
  rintro c _ rfl
  rw [unmet_apply, unmet_apply, Cursor.position_map, Cursor.lastSpan_map]
  exact .some (.errored ⟨rfl, rfl⟩)

variable [DecidableEq ι] [DecidableEq υ]

theorem coupled_sequence_renamed (inj : Function.Injective f) (xs : List ι) :
    Coupled (.renamed f : Coupling ι υ ε) (fun ys zs => ys.map f = zs) (sequence xs)
      (sequence (xs.map f)) := by
  rintro c _ rfl
  have same : (c.map f).startsWith (xs.map f) = c.startsWith xs := by
    rw [Cursor.startsWith, Cursor.startsWith, Cursor.agrees_map c inj, List.isEmpty_map]
  unfold sequence
  rw [ofOutcome_apply, ofOutcome_apply, same, List.length_map]
  split
  · exact .some (.matched rfl (Cursor.advance_map f c xs.length).symm rfl)
  · exact .some (.noMatch rfl)

end Parser

namespace Grammar

/-- The second grammar is the first one with its items renamed, and with tests that answer
for renamed items as the first ones do for the items. Everything else is the same. -/
inductive Renamed (f : ι → υ) : Grammar ρ ι ε → Grammar ρ υ ε → Prop
  | just (x : ι) : Renamed f (.just x) (.just (f x))
  | oneOf (xs : List ι) : Renamed f (.oneOf xs) (.oneOf (xs.map f))
  | satisfy {test : ι → Bool} {test' : υ → Bool} (same : ∀ x, test' (f x) = test x) :
    Renamed f (.satisfy test) (.satisfy test')
  | sequence (xs : List ι) : Renamed f (.sequence xs) (.sequence (xs.map f))
  | finish : Renamed f .finish .finish
  | both {p q : Grammar ρ ι ε} {p' q' : Grammar ρ υ ε} (joining : Joining)
      (first : Renamed f p p') (second : Renamed f q q') :
    Renamed f (.both joining p q) (.both joining p' q')
  | orElse {p q : Grammar ρ ι ε} {p' q' : Grammar ρ υ ε} (first : Renamed f p p')
      (second : Renamed f q q') : Renamed f (.orElse p q) (.orElse p' q')
  | noAlternative : Renamed f (.firstOf []) (.firstOf [])
  | alternative {p : Grammar ρ ι ε} {p' : Grammar ρ υ ε} {ps : List (Grammar ρ ι ε)}
      {ps' : List (Grammar ρ υ ε)} (first : Renamed f p p')
      (others : Renamed f (.firstOf ps) (.firstOf ps')) :
    Renamed f (.firstOf (p :: ps)) (.firstOf (p' :: ps'))
  | maybe {p : Grammar ρ ι ε} {p' : Grammar ρ υ ε} (fallback : Fallback ι)
      (part : Renamed f p p') : Renamed f (.maybe fallback p) (.maybe (fallback.rename f) p')
  | require {p : Grammar ρ ι ε} {p' : Grammar ρ υ ε} (error : ε) (part : Renamed f p p') :
    Renamed f (.require p error) (.require p' error)
  | spanned {p : Grammar ρ ι ε} {p' : Grammar ρ υ ε} (part : Renamed f p p') :
    Renamed f (.spanned p) (.spanned p')
  | repeated {p : Grammar ρ ι ε} {p' : Grammar ρ υ ε} (atLeast : Nat)
      (part : Renamed f p p') : Renamed f (.repeated p atLeast) (.repeated p' atLeast)
  | separated {p q : Grammar ρ ι ε} {p' q' : Grammar ρ υ ε} (form : ListForm)
      (item : Renamed f p p') (separator : Renamed f q q') :
    Renamed f (.separated p q form) (.separated p' q' form)
  | call (rule : ρ) : Renamed f (.call rule) (.call rule)

structure RenamedWith (f : ι → υ) (table : ρ → Grammar ρ ι ε) (table' : ρ → Grammar ρ υ ε)
    (g : Grammar ρ ι ε) (g' : Grammar ρ υ ε) : Prop where
  rules : ∀ r, Renamed f (table r) (table' r)
  start : Renamed f g g'

variable {f : ι → υ}

theorem Renamed.delimited {p opening closing : Grammar ρ ι ε}
    {p' opening' closing' : Grammar ρ υ ε} (part : Renamed f p p')
    (first : Renamed f opening opening') (last : Renamed f closing closing') :
    Renamed f (p.delimited opening closing) (p'.delimited opening' closing') :=
  .both .left (.both .right first part) last

/-- The two parsers give renamed replies at renamed cursors. -/
abbrev RenamedRuns (f : ι → υ) (p : Parser ι (Value ι) ε) (p' : Parser υ (Value υ) ε) : Prop :=
  Parser.Coupled (.renamed f) (fun v w => v.rename f = w) p p'

theorem rename_list_of_forall₂ {vs : List (Value ι)} {ws : List (Value υ)}
    (h : List.Forall₂ (fun v w => v.rename f = w) vs ws) :
    (Value.list vs).rename f = .list ws := by
  rw [Value.rename_list, Value.list.injEq, ← List.forall₂_eq_eq_eq, List.forall₂_map_left_iff]
  exact h

variable [DecidableEq ι] [DecidableEq υ]

/-- A renamed grammar gives renamed replies, if the rules that are called do. -/
theorem renamedRuns_denote (inj : Function.Injective f) {rules : ρ → Parser ι (Value ι) ε}
    {rules' : ρ → Parser υ (Value υ) ε} (called : ∀ r, RenamedRuns f (rules r) (rules' r))
    {g : Grammar ρ ι ε} {g' : Grammar ρ υ ε} (renamed : Renamed f g g') :
    RenamedRuns f (denote rules g) (denote rules' g') := by
  have hK := Coupling.renamed_composes (ε := ε) f
  induction renamed with
  | just x =>
    refine (Parser.coupled_satisfy_renamed ?_).map fun y z same => by rw [Value.rename, same]
    intro y
    rw [decide_eq_decide, inj.eq_iff]
  | oneOf xs =>
    refine (Parser.coupled_satisfy_renamed ?_).map fun y z same => by rw [Value.rename, same]
    intro y
    rw [decide_eq_decide, List.mem_map_of_injective inj]
  | satisfy same =>
    exact (Parser.coupled_satisfy_renamed same).map fun y z same => by rw [Value.rename, same]
  | sequence xs =>
    refine (Parser.coupled_sequence_renamed inj xs).map ?_
    rintro ys _ rfl
    exact Value.rename_ofItems f ys
  | finish =>
    refine (Parser.coupled_finish hK).map ?_
    intro _ _ _
    rfl
  | both joining first second hp hq =>
    apply hp.andThen hK
    rintro a _ rfl
    apply hq.map
    rintro b _ rfl
    exact joining.rename_combine f a b
  | orElse first second hp hq => exact hp.orElse hK hq
  | noAlternative =>
    rw [denote_firstOf, denote_firstOf]
    exact Parser.coupled_miss hK
  | alternative first others hp hps =>
    rw [denote_firstOf, denote_firstOf] at hps ⊢
    exact hp.orElse hK hps
  | maybe fallback part hp =>
    refine hp.branch hK ?_ (Parser.coupled_succeed hK (fallback.rename_missing f))
    rintro a _ rfl
    exact Parser.coupled_succeed hK (fallback.rename_found f a)
  | require e part hp => exact hp.orElse hK (Parser.coupled_unmet_renamed e)
  | spanned part hp =>
    have captured := hp.spanned (T := fun s t => s.map (Value.rename f) = t) ?_
    · apply captured.map
      rintro s _ rfl
      exact Value.rename_ofSpanned f s
    · rintro a _ c _ rest _ rfl rfl rfl
      rw [Cursor.spanUntil_map]
      rfl
  | repeated n part hp => exact (hp.repeated hK n).map fun _ _ => rename_list_of_forall₂
  | separated form item separator hp hq =>
    exact (hp.separated hK form hq).map fun _ _ => rename_list_of_forall₂
  | call r => exact called r

/-- Renamed rules give renamed replies, however deep calls may be nested. -/
theorem renamedRuns_rule (inj : Function.Injective f) {table : ρ → Grammar ρ ι ε}
    {table' : ρ → Grammar ρ υ ε} (rules : ∀ r, Renamed f (table r) (table' r)) (depth : Nat)
    (r : ρ) : RenamedRuns f (run table depth (.call r)) (run table' depth (.call r)) := by
  induction depth generalizing r with
  | zero => exact fun _ _ _ => .none
  | succ depth ih => exact renamedRuns_denote inj ih (rules r)

theorem run_renamed (inj : Function.Injective f) {table : ρ → Grammar ρ ι ε}
    {table' : ρ → Grammar ρ υ ε} {g : Grammar ρ ι ε} {g' : Grammar ρ υ ε}
    (renamed : RenamedWith f table table' g g') (depth : Nat) (c : Cursor ι) :
    run table' depth g' (c.map f) = (run table depth g c).map (Reply.rename f) :=
  (renamedRuns_denote inj (renamedRuns_rule inj renamed.rules depth) renamed.start).eq_renamed c

/-- Parsing commutes with renaming the items: for an injective function and from every
position, the renamed grammar replies as the grammar does, with the items in the value
renamed. Position, path, spans, error and events are the same. -/
theorem parse_renamed (inj : Function.Injective f) (input : Input ι) (position : Nat) :
    (∀ {ρ : Type} {table : ρ → Grammar ρ ι ε} {table' : ρ → Grammar ρ υ ε} {g : Grammar ρ ι ε}
      {g' : Grammar ρ υ ε}, RenamedWith f table table' g g' → ∀ depth,
        run table' depth g' ((input.map f).start.advance position) =
          (run table depth g (input.start.advance position)).map (Reply.rename f)) ∧
    ∀ {n : Nat} {table : Fin n → Grammar (Fin n) ι ε} {table' : Fin n → Grammar (Fin n) υ ε}
      {g : Grammar (Fin n) ι ε} {g' : Grammar (Fin n) υ ε}, RenamedWith f table table' g g' →
        parse table' g' ((input.map f).start.advance position) =
          (parse table g (input.start.advance position)).map (Reply.rename f) := by
  have start : (input.map f).start.advance position = (input.start.advance position).map f := by
    rw [Input.start_map, Cursor.advance_map]
  rw [start]
  constructor
  · intro ρ table table' g g' renamed depth
    exact run_renamed inj renamed depth (input.start.advance position)
  · intro n table table' g g' renamed
    have sameDepth : depthOn n ((input.start.advance position).map f).items =
        depthOn n (input.start.advance position).items := by
      simp [depthOn, Cursor.map]
    unfold parse
    rw [sameDepth]
    exact run_renamed inj renamed _ (input.start.advance position)

/-- Digits with their span, or such values in brackets with commas between them and perhaps
one behind them, of which the closing bracket has to be there; for items that have a test for
digits and stand for characters. -/
def spannedValues (isDigit : ι → Bool) (char : Char → ι) : Fin 1 → Grammar (Fin 1) ι String :=
  fun value => .orElse (.spanned (.repeated (.satisfy isDigit) 1))
    (delimited (.separated (.call value) (.just (char ',')) { trailing := true })
      (.just (char '[')) (.require (.just (char ']')) "unclosed"))

theorem renamed_spannedValues (r : Fin 1) :
    Renamed Item.char (spannedValues Char.isDigit id r) (spannedValues Item.isDigit .char r) := by
  refine .orElse (.spanned (.repeated 1 (.satisfy fun _ => rfl))) (.delimited ?_ (.just '[') ?_)
  · exact .separated _ (.call r) (.just ',')
  · exact .require "unclosed" (.just ']')

/-- A value and one that is not closed, counted from 5. -/
def twoValues : Input Char := .numbered "[12,[3,],]x[4".toList.toArray 5 (by decide)

/-- Characters become items. The first value is found in both inputs, and the second one
fails in both. -/
theorem parse_renamed_spannedValues :
    let found (position : Nat) :=
      parse (spannedValues Char.isDigit id) (.call 0) (twoValues.start.advance position)
    let foundRenamed (position : Nat) :=
      parse (spannedValues Item.isDigit .char) (.call 0)
        ((twoValues.map .char).start.advance position)
    ((found 0).any fun r => r.outcome.isMatched) = true ∧
    ((found 11).any fun r => r.outcome.isErrored) = true ∧
    foundRenamed 0 = (found 0).map (Reply.rename .char) ∧
    foundRenamed 11 = (found 11).map (Reply.rename .char) := by
  have inj : Function.Injective Item.char := fun _ _ same => Item.char.inj same
  have replies (position : Nat) :=
    (parse_renamed inj twoValues position).2 ⟨renamed_spannedValues, .call 0⟩
  exact ⟨by decide +kernel, by decide +kernel, replies 0, replies 11⟩

end Grammar

end SpannedParsing
