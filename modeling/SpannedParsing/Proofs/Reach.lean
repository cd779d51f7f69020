import Mathlib.Logic.Relation
import SpannedParsing.Grammar.Context
import SpannedParsing.Grammar.Meaning

/-!
# The grammars inside a grammar

A grammar over a table of rules includes its parts, the parts of these and the
rules that it calls. It reaches, in addition, every grammar that one of its contexts
may choose. What is asked of a grammar as a whole is asked of the grammars that it
reaches, or of those that it includes and of its contexts as they are.

The grammar of `blocks` stands at the end. It has rules that call each other, a
context and a required part, and the theorems about whole grammars are tried on it.
All that they ask of it follows from `OnlyCounts`.
-/
namespace SpannedParsing.Grammar

variable {ρ ι ε : Type}

/-- The second grammar is a part of the first one, or the rule that it calls. -/
def HasPart (table : ρ → Grammar ρ ι ε) : Grammar ρ ι ε → Grammar ρ ι ε → Prop
  | .just _, _ => False
  | .oneOf _, _ => False
  | .satisfy _, _ => False
  | .sequence _, _ => False
  | .finish, _ => False
  | .answer _, _ => False
  | .both _ p q, part => part = p ∨ part = q
  | .orElse p q, part => part = p ∨ part = q
  | .firstOf ps, part => part ∈ ps
  | .maybe _ p, part => part = p
  | .require p _, part => part = p
  | .spanned p, part => part = p
  | .map _ p, part => part = p
  | .check p _, part => part = p
  | .repeated p _, part => part = p
  | .separated item separator _, part => part = item ∨ part = separator
  | .withContext p _, part => part = p
  | .call r, part => part = table r

/-- The first grammar is a context that may choose the second one. -/
def MayChoose (h chosen : Grammar ρ ι ε) : Prop :=
  ∃ p next value cursor, h = .withContext p next ∧ chosen = next value cursor

/-- The second grammar is the first one, or stands somewhere inside it without
being chosen by a context. -/
def Includes (table : ρ → Grammar ρ ι ε) : Grammar ρ ι ε → Grammar ρ ι ε → Prop :=
  Relation.ReflTransGen (HasPart table)

/-- The second grammar is the first one, or stands somewhere inside it, also where
a context has to choose it. -/
def Reaches (table : ρ → Grammar ρ ι ε) : Grammar ρ ι ε → Grammar ρ ι ε → Prop :=
  Relation.ReflTransGen fun h part => HasPart table h part ∨ MayChoose h part

section Paths

variable {table : ρ → Grammar ρ ι ε} {g h k : Grammar ρ ι ε}

theorem Includes.refl (table : ρ → Grammar ρ ι ε) (g : Grammar ρ ι ε) : Includes table g g :=
  Relation.ReflTransGen.refl

theorem Includes.part (included : Includes table g h) (inside : HasPart table h k) :
    Includes table g k :=
  Relation.ReflTransGen.tail included inside

theorem Includes.reaches (included : Includes table g h) : Reaches table g h :=
  Relation.ReflTransGen.mono (fun _ _ inside => Or.inl inside) _ _ included

theorem Reaches.refl (table : ρ → Grammar ρ ι ε) (g : Grammar ρ ι ε) : Reaches table g g :=
  Relation.ReflTransGen.refl

theorem Reaches.part (reached : Reaches table g h) (inside : HasPart table h k) :
    Reaches table g k :=
  Relation.ReflTransGen.tail reached (Or.inl inside)

theorem Reaches.choice {p : Grammar ρ ι ε} {next : Value ι → Cursor ι → Grammar ρ ι ε}
    (reached : Reaches table g (.withContext p next)) (value : Value ι) (cursor : Cursor ι) :
    Reaches table g (next value cursor) :=
  Relation.ReflTransGen.tail reached (Or.inr ⟨p, next, value, cursor, rfl, rfl⟩)

/-- A family of grammars with all their parts and choices is never left. -/
theorem Reaches.mem_of_closed (family : Grammar ρ ι ε → Prop)
    (parts : ∀ h, family h → ∀ part, HasPart table h part → family part)
    (choices : ∀ p next, family (.withContext p next) →
      ∀ value cursor, family (next value cursor))
    (start : family g) (reached : Reaches table g k) : family k := by
  induction reached with
  | refl => exact start
  | tail _ inside ih =>
    obtain inside | ⟨p, next, value, cursor, rfl, rfl⟩ := inside
    · exact parts _ ih _ inside
    · exact choices p next ih value cursor

end Paths

section Everywhere

mutual

/-- A grammar, all its parts and all that its contexts may choose have a property. -/
def Everywhere (P : Grammar ρ ι ε → Prop) : Grammar ρ ι ε → Prop
  | .just x => P (.just x)
  | .oneOf xs => P (.oneOf xs)
  | .satisfy test => P (.satisfy test)
  | .sequence xs => P (.sequence xs)
  | .finish => P .finish
  | .answer f => P (.answer f)
  | .both joining p q => P (.both joining p q) ∧ Everywhere P p ∧ Everywhere P q
  | .orElse p q => P (.orElse p q) ∧ Everywhere P p ∧ Everywhere P q
  | .firstOf ps => P (.firstOf ps) ∧ EverywhereIn P ps
  | .maybe fallback p => P (.maybe fallback p) ∧ Everywhere P p
  | .require p e => P (.require p e) ∧ Everywhere P p
  | .spanned p => P (.spanned p) ∧ Everywhere P p
  | .map f p => P (.map f p) ∧ Everywhere P p
  | .check p test => P (.check p test) ∧ Everywhere P p
  | .repeated p n => P (.repeated p n) ∧ Everywhere P p
  | .separated item separator form =>
    P (.separated item separator form) ∧ Everywhere P item ∧ Everywhere P separator
  | .withContext p next =>
    P (.withContext p next) ∧ Everywhere P p ∧ ∀ value cursor, Everywhere P (next value cursor)
  | .call r => P (.call r)

def EverywhereIn (P : Grammar ρ ι ε → Prop) : List (Grammar ρ ι ε) → Prop
  | [] => True
  | p :: ps => Everywhere P p ∧ EverywhereIn P ps

end

variable {P : Grammar ρ ι ε → Prop} {table : ρ → Grammar ρ ι ε} {g h : Grammar ρ ι ε}

theorem EverywhereIn.of_mem {ps : List (Grammar ρ ι ε)} (all : EverywhereIn P ps)
    {p : Grammar ρ ι ε} (mem : p ∈ ps) : Everywhere P p := by
  induction ps with
  | nil => exact nomatch mem
  | cons q qs ih =>
    rcases List.mem_cons.mp mem with rfl | mem
    · exact all.1
    · exact ih all.2 mem

theorem Everywhere.self (all : Everywhere P g) : P g := by
  cases g with
  | just | oneOf | satisfy | sequence | finish | answer | call => exact all
  | both | orElse | firstOf | maybe | require | spanned | map | check | repeated | separated
  | withContext => exact all.1

theorem Everywhere.part (rules : ∀ r, Everywhere P (table r)) (all : Everywhere P g)
    (inside : HasPart table g h) : Everywhere P h := by
  cases g with
  | just | oneOf | satisfy | sequence | finish | answer => exact nomatch inside
  | both | orElse | separated =>
    obtain rfl | rfl := inside
    · exact all.2.1
    · exact all.2.2
  | firstOf ps => exact all.2.of_mem inside
  | maybe | require | spanned | map | check | repeated =>
    obtain rfl := inside
    exact all.2
  | withContext =>
    obtain rfl := inside
    exact all.2.1
  | call r =>
    obtain rfl := inside
    exact rules r

/-- What holds everywhere in a grammar and in the rules holds of all that is reached. -/
theorem Everywhere.of_reaches (rules : ∀ r, Everywhere P (table r)) (all : Everywhere P g)
    (reached : Reaches table g h) : P h := by
  refine (Reaches.mem_of_closed (Everywhere P) ?_ ?_ all reached).self
  · intro k everywhere part inside
    exact everywhere.part rules inside
  · intro p next everywhere value cursor
    exact everywhere.2.2 value cursor

end Everywhere

section Runs

variable [DecidableEq ι]

/-- A property of parsers is kept by the contexts of a family of grammars: what a
context goes on with has the property, for every depth of calls. The rules of the
family may be assumed to have it up to that depth, and so may the grammars that are
chosen from the family itself. -/
def ContextsKeep (P : Parser ι (Value ι) ε → Prop) (table : ρ → Grammar ρ ι ε)
    (family : Grammar ρ ι ε → Prop) : Prop :=
  ∀ p next, family (.withContext p next) → ∀ depth,
    (∀ m, m ≤ depth → ∀ r, family (.call r) → P (run table m (.call r))) →
    ∀ value, (∀ c, family (next value c) → P (run table depth (next value c))) →
    P fun c => run table depth (next value c) c

/-- All grammars of a family have a property for every depth of calls, if they have
it whenever the rules that they call have it. -/
theorem run_induction {P : Parser ι (Value ι) ε → Prop} {table : ρ → Grammar ρ ι ε}
    {family : Grammar ρ ι ε → Prop} (rule : ∀ r, family (.call r) → family (table r))
    (cut : P fun _ => none)
    (step : ∀ depth, (∀ m, m ≤ depth → ∀ r, family (.call r) → P (run table m (.call r))) →
      ∀ h, family h → P (run table depth h))
    {g : Grammar ρ ι ε} (member : family g) (depth : Nat) : P (run table depth g) := by
  have rules : ∀ m r, family (.call r) → P (run table m (.call r)) := by
    intro m
    induction m using Nat.strongRecOn with
    | ind m ih =>
      intro r called
      cases m with
      | zero => exact cut
      | succ m => exact step m (fun k le => ih k (by omega)) (table r) (rule r called)
  exact step depth (fun m _ => rules m) g member

end Runs

/-- Taking items misses, or advances by as many. -/
theorem answer_take {f : Cursor ι → Outcome ι (Value ι) ε} {n : Nat}
    (h : (.answer f : Grammar ρ ι ε) = take n) (c : Cursor ι) :
    f c = if n ≤ c.left then
      .matched (.ofItems ((c.remaining.take n).map Spanned.item)) (c.advance n) else .noMatch := by
  obtain rfl := Grammar.answer.inj h
  dsimp only
  rw [Cursor.split?_eq]
  by_cases enough : n ≤ c.left <;> simp [enough]

theorem advance_of_take {f : Cursor ι → Outcome ι (Value ι) ε} {n : Nat}
    (h : (.answer f : Grammar ρ ι ε) = take n) {c d : Cursor ι} {value : Value ι}
    (matched : f c = .matched value d) : d = c.advance n := by
  rw [answer_take h] at matched
  split at matched
  · exact (Outcome.matched.inj matched).2.symm
  · exact nomatch matched

/-- A block: a digit and as many items as it says, or a block in brackets, of
which the closing one has to be there. -/
def block : Grammar Unit Item String :=
  .orElse (.withContext (.satisfy Item.isDigit) fun value _ => counted value)
    (.both .right (.just (.char '('))
      (.both .left (.call ()) (.require (.just (.char ')')) "unclosed")))

/-- Blocks with commas between them and perhaps one in front. -/
def blocks : Grammar Unit Item String :=
  .separated (.call ()) (.just (.char ',')) { leading := true }

/-- The start of a text, read as items. -/
def startOf (text : List Char) (fits : text.length ≤ maxOffset) : Cursor Item :=
  (Input.numbered (text.map Item.char).toArray 0 (by simpa using fits)).start

/-- Two blocks, the second one in brackets, and something else behind them. -/
def closedBlocks : Cursor Item := startOf ",2ab,(1c),x".toList (by decide)

/-- Two blocks, the second one in brackets that are not closed. -/
def unclosedBlocks : Cursor Item := startOf ",2ab,(1c".toList (by decide)

/-- Nothing is captured, and all that a grammar does outside the combinators is taking as
many items as a value says. -/
def OnlyCounts : Grammar ρ Item ε → Prop
  | .answer f => ∃ n, (.answer f : Grammar ρ Item ε) = take n
  | .withContext _ next => next = fun value _ => counted value
  | .spanned _ => False
  | _ => True

/-- What holds of taking items holds of every own outcome. -/
theorem OnlyCounts.answer {f : Cursor Item → Outcome Item (Value Item) ε}
    (counts : OnlyCounts (.answer f : Grammar ρ Item ε)) (table : ρ → Grammar ρ Item ε)
    (P : Parser Item (Value Item) ε → Prop) (taking : ∀ n, P (run table 0 (take n))) :
    P (Parser.ofOutcome f) := by
  obtain ⟨n, taken⟩ := counts
  have kept := taking n
  rw [← taken] at kept
  exact kept

theorem OnlyCounts.contexts {table : ρ → Grammar ρ Item ε} {family : Grammar ρ Item ε → Prop}
    {P : Parser Item (Value Item) ε → Prop} (counts : ∀ h, family h → OnlyCounts h)
    (taking : ∀ depth n, P (run table depth (take n))) : ContextsKeep P table family := by
  intro p next member depth _ value _
  obtain rfl := counts _ member
  exact taking depth value.amount

theorem onlyCounts_block : Everywhere OnlyCounts block := by
  refine ⟨trivial, ⟨rfl, trivial, fun value _ => ⟨value.amount, rfl⟩⟩, ?_⟩
  simp [Everywhere, OnlyCounts]

theorem onlyCounts_of_reaches {h : Grammar Unit Item String}
    (reached : Reaches (fun _ => block) blocks h) : OnlyCounts h := by
  have all : Everywhere OnlyCounts blocks := by simp [blocks, Everywhere, OnlyCounts]
  exact all.of_reaches (fun _ => onlyCounts_block) reached

end SpannedParsing.Grammar
