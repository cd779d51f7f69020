import SpannedParsing.Proofs.Reading
import SpannedParsing.Proofs.Termination

/-!
# Nested lists of digits

A value is a digit, or a list of values in brackets with commas between them:

    value := digit | '[' (value (',' value)*)? ']'

The grammar of values calls itself, so this is a parser by recursive descent. It is
shown exact: it matches a text up to a place if and only if the text up to there is a
tree of nested lists, written out, and then it finds that tree; it misses where no
tree is written; and it never fails. Completeness is by induction on the depth of
calls, for which the length of the text is enough. That no tree is written in front of
another one need not be shown first: it follows, since there is only one answer.
-/
namespace SpannedParsing

variable {ε : Type}

inductive Tree where
  | digit (d : Fin 10)
  | list (trees : List Tree)

def digits : List Char := ['0', '1', '2', '3', '4', '5', '6', '7', '8', '9']

namespace Tree

def digitChar (d : Fin 10) : Char := digits.get d

mutual

def render : Tree → List Char
  | digit d => [digitChar d]
  | list trees => '[' :: (renderItems trees ++ [']'])

def renderItems : List Tree → List Char
  | [] => []
  | t :: ts => render t ++ renderRest ts

/-- Trees with a comma in front of each of them. -/
def renderRest : List Tree → List Char
  | [] => []
  | t :: ts => ',' :: (render t ++ renderRest ts)

end

mutual

/-- What is found where a tree is written. -/
def value : Tree → Value Char
  | digit d => .item (digitChar d)
  | list trees => .list (values trees)

def values : List Tree → List (Value Char)
  | [] => []
  | t :: ts => value t :: values ts

end

theorem renderRest_eq_flatMap (trees : List Tree) :
    renderRest trees = trees.flatMap fun t => ',' :: render t := by
  induction trees with
  | nil => simp [renderRest]
  | cons t ts ih => simp [renderRest, ih]

theorem values_eq_map (trees : List Tree) : values trees = trees.map value := by
  induction trees with
  | nil => simp [values]
  | cons t ts ih => simp [values, ih]

/-- A list is written in brackets, with single commas between its trees. -/
theorem render_list (trees : List Tree) :
    (list trees).render = '[' :: ([','].intercalate (trees.map render) ++ [']']) := by
  have rest (t : Tree) (ts : List Tree) :
      [','].intercalate ((t :: ts).map render) = t.render ++ renderRest ts := by
    induction ts generalizing t with
    | nil => simp [renderRest, List.intercalate]
    | cons u us ih =>
      have tail := ih u
      simp only [List.map_cons, List.intercalate, List.intersperse, List.flatten_cons,
        renderRest] at tail ⊢
      rw [tail]
      rfl
  rw [render]
  cases trees with
  | nil => rfl
  | cons t ts => rw [rest, renderItems]

theorem digitChar_mem (d : Fin 10) : digitChar d ∈ digits := List.get_mem digits d

theorem digitChar_injective : Function.Injective digitChar := by
  unfold Function.Injective
  decide

theorem exists_digitChar {x : Char} (mem : x ∈ digits) : ∃ d, digitChar d = x :=
  List.mem_iff_get.mp mem

mutual

theorem value_injective : ∀ t u : Tree, t.value = u.value → t = u
  | digit d, digit e, same => by
    have chars := Value.item.inj same
    rw [digitChar_injective chars]
  | digit _, list _, same => nomatch same
  | list _, digit _, same => nomatch same
  | list ts, list us, same => by rw [values_injective ts us (Value.list.inj same)]

theorem values_injective : ∀ ts us : List Tree, values ts = values us → ts = us
  | [], [], _ => rfl
  | [], _ :: _, same => nomatch same
  | _ :: _, [], same => nomatch same
  | t :: ts, u :: us, same => by
    obtain ⟨first, rest⟩ := List.cons.inj same
    rw [value_injective t u first, values_injective ts us rest]

end

theorem length_render_le_rest {t : Tree} {ts : List Tree} (mem : t ∈ ts) :
    t.render.length < (renderRest ts).length := by
  induction ts with
  | nil => exact nomatch mem
  | cons u us ih =>
    rw [renderRest, List.length_cons, List.length_append]
    rcases List.mem_cons.mp mem with rfl | mem
    · omega
    · have less := ih mem
      omega

theorem length_render_le_items {t : Tree} {ts : List Tree} (mem : t ∈ ts) :
    t.render.length ≤ (renderItems ts).length := by
  cases ts with
  | nil => exact nomatch mem
  | cons u us =>
    rw [renderItems, List.length_append]
    rcases List.mem_cons.mp mem with rfl | mem
    · omega
    · have less := length_render_le_rest mem
      omega

end Tree

namespace Parser

variable {ι α σ : Type}

/-- A list that allows and asks for nothing more is a first item in front of repeated
pairs, or empty. -/
theorem separated_plain (item : Parser ι α ε) (separator : Parser ι σ ε) :
    item.separated separator {} =
      (item.cons ((separator.keepRight item).repeated 0)).orDefault [] := by
  rw [separated_eq_skeleton, if_pos rfl]
  congr 1
  unfold skeleton cons
  rw [skipIf_false, succeed_andThen]
  congr 1
  funext first c
  change following item separator {} _ first c =
    (pairs item separator {}).map (fun as => first :: as) c
  rcases more : pairs item separator {} c with _ | ⟨⟨as, d⟩ | _ | ⟨e, s⟩, log⟩
  · simp [following, branch_none more, map_apply, more]
  · simp [following, branch_matched more, map_apply, more, Reply.after]
  · exact absurd more (repeated_zero_ne_noMatch _ _ _)
  · simp [following, branch_errored more, map_apply, more]

end Parser

namespace Grammar

/-- A digit, or a list of values in brackets with commas between them. -/
def tree : Grammar (Fin 1) Char ε :=
  .orElse (.oneOf digits)
    (delimited (.separated (.call 0) (.just ',') {}) (.just '[') (.just ']'))

def treeRules : Fin 1 → Grammar (Fin 1) Char ε := fun _ => tree

/-- The parser of trees, given the parser for the trees inside. -/
def treeParser (inner : Parser Char (Value Char) ε) : Parser Char (Value Char) ε :=
  ((Parser.oneOf digits).map .item).orElse
    (((inner.separated ((Parser.just ',').map Value.item) {}).map .list).delimited
      ((Parser.just '[').map Value.item) ((Parser.just ']').map Value.item))

theorem run_tree (depth : Nat) :
    run treeRules depth (tree : Grammar (Fin 1) Char ε) =
      treeParser (run treeRules depth (.call 0)) := by
  unfold run tree
  rw [denote_orElse, denote_delimited]
  rfl

section Characters

variable {c d : Cursor Char} {x : Char}

theorem reads_of_char {v : Value Char} {log : List Event}
    (found : (Parser.just x : Parser Char Char ε).map Value.item c = some ⟨.matched v d, log⟩) :
    c.Reads [x] d := by
  obtain ⟨y, single, -⟩ := Parser.matched_of_map found
  obtain ⟨passed, reads⟩ := Parser.reads_of_satisfy single
  obtain rfl : y = x := of_decide_eq_true passed
  exact reads

theorem char_of_peek {s : Spanned Char} (peek : c.peek = some s) (same : s.item = x) :
    (Parser.just x : Parser Char Char ε).map Value.item c =
      some ⟨.matched (.item x) c.next, []⟩ := by
  subst same
  rw [Parser.map_apply, Parser.just, Parser.satisfy_of_passed peek (decide_eq_true rfl)]
  rfl

theorem char_of_other (other : ∀ s, c.peek = some s → s.item ≠ x) :
    (Parser.just x : Parser Char Char ε).map Value.item c = some ⟨.noMatch, []⟩ := by
  rw [Parser.map_apply, Parser.just, Parser.satisfy_of_failed]
  · rfl
  · intro s peek
    exact decide_eq_false (other s peek)

theorem digit_of_other (other : ∀ s, c.peek = some s → s.item ∉ digits) :
    (Parser.oneOf digits : Parser Char Char ε).map Value.item c = some ⟨.noMatch, []⟩ := by
  rw [Parser.map_apply, Parser.oneOf, Parser.satisfy_of_failed]
  · rfl
  · intro s peek
    exact decide_eq_false (other s peek)

end Characters

/-- Every match of the parser is a tree. -/
def FindsTrees (p : Parser Char (Value Char) ε) : Prop :=
  ∀ c v d log, p c = some ⟨.matched v d, log⟩ → ∃ t : Tree, c.Reads t.render d ∧ v = t.value

variable {inner : Parser Char (Value Char) ε}

theorem trees_of_rounds (finds : FindsTrees inner) {c d : Cursor Char} {vs : List (Value Char)}
    (rounds : Parser.Rounds (((Parser.just ',').map Value.item).keepRight inner) c vs d) :
    ∃ ts, c.Reads (Tree.renderRest ts) d ∧ vs = Tree.values ts := by
  induction rounds with
  | done c => exact ⟨[], .refl c, rfl⟩
  | round found _ _ ih =>
    obtain ⟨ts, rest, rfl⟩ := ih
    obtain ⟨comma, start, l, m, separator, item, -⟩ := Parser.matched_of_andThen found
    obtain ⟨t, reads, rfl⟩ := finds _ _ _ _ item
    exact ⟨t :: ts, (reads_of_char separator).trans (reads.trans rest), rfl⟩

theorem trees_of_separated (finds : FindsTrees inner) {c d : Cursor Char}
    {vs : List (Value Char)} {log : List Event}
    (found : inner.separated ((Parser.just ',').map Value.item) {} c =
      some ⟨.matched vs d, log⟩) :
    ∃ ts, c.Reads (Tree.renderItems ts) d ∧ vs = Tree.values ts := by
  rw [Parser.separated_plain] at found
  rcases Parser.matched_of_orElse found with found | ⟨l, m, -, empty, -⟩
  · obtain ⟨v, rest, l, m, first, more, -⟩ := Parser.matched_of_andThen found
    obtain ⟨ws, rounds, rfl⟩ := Parser.matched_of_map more
    obtain ⟨t, head, rfl⟩ := finds _ _ _ _ first
    obtain ⟨ts, tail, rfl⟩ := trees_of_rounds finds (Parser.rounds_of_repeated rounds).1
    exact ⟨t :: ts, head.trans tail, rfl⟩
  · obtain ⟨⟨rfl, rfl⟩, -⟩ : (vs = [] ∧ d = c) ∧ m = [] := by simpa [eq_comm] using empty
    exact ⟨[], .refl _, rfl⟩

theorem finds_treeParser (finds : FindsTrees inner) : FindsTrees (treeParser inner) := by
  intro c v d log found
  rcases Parser.matched_of_orElse found with digit | ⟨l, m, -, list, -⟩
  · obtain ⟨x, single, rfl⟩ := Parser.matched_of_map digit
    obtain ⟨passed, reads⟩ := Parser.reads_of_satisfy single
    obtain ⟨e, rfl⟩ := Tree.exists_digitChar (of_decide_eq_true passed)
    exact ⟨.digit e, reads, rfl⟩
  · obtain ⟨w, closing, l, m, opened, closed, -⟩ := Parser.matched_of_andThen list
    obtain ⟨bracket, start, l, m, before, inside, -⟩ := Parser.matched_of_andThen opened
    obtain ⟨ws, between, rfl⟩ := Parser.matched_of_map inside
    obtain ⟨_, after, rfl⟩ := Parser.matched_of_map closed
    obtain ⟨ts, reads, rfl⟩ := trees_of_separated finds between
    exact ⟨.list ts, (reads_of_char before).trans (reads.trans (reads_of_char after)), rfl⟩

/-- Every match of the grammar of trees is a tree, at every depth. -/
theorem finds_run (depth : Nat) :
    FindsTrees (run treeRules depth (tree : Grammar (Fin 1) Char ε)) := by
  induction depth with
  | zero =>
    rw [run_tree]
    exact finds_treeParser fun c v d log found => nomatch found
  | succ depth ih =>
    rw [run_tree]
    exact finds_treeParser ih

/-- The parser finds every tree that is written with at most `k` characters, and misses
where no tree begins. -/
structure ReadsTrees (p : Parser Char (Value Char) ε) (k : Nat) : Prop where
  reads : ∀ t : Tree, t.render.length ≤ k → ∀ c d, c.Reads t.render d →
    p c = some ⟨.matched t.value d, []⟩
  misses : ∀ c, (∀ s, c.peek = some s → s.item ∉ digits ∧ s.item ≠ '[') →
    p c = some ⟨.noMatch, []⟩

/-- The trees behind the first one are read up to a place where no comma stands. -/
theorem repeated_of_trees {k : Nat} (inside : ReadsTrees inner k) {ts : List Tree}
    (short : ∀ t ∈ ts, t.render.length ≤ k) {c d : Cursor Char}
    (reads : c.Reads (Tree.renderRest ts) d) (ended : ∀ s, d.peek = some s → s.item ≠ ',') :
    ((((Parser.just ',').map Value.item).keepRight inner).repeated 0) c =
      some ⟨.matched (Tree.values ts) d, []⟩ := by
  have round : ∀ t ∈ ts, ∀ e f, e.Reads (',' :: t.render) f →
      ((Parser.just ',').map Value.item).keepRight inner e = some ⟨.matched t.value f, []⟩ := by
    intro t mem e f whole
    obtain ⟨s, peek, comma, behind⟩ := whole.uncons
    rw [Parser.keepRight, Parser.andThen_of_matched (char_of_peek peek comma),
      inside.reads t (short t mem) _ _ behind]
    rfl
  have missed : ((Parser.just ',').map Value.item).keepRight inner d = some ⟨.noMatch, []⟩ :=
    Parser.andThen_of_noMatch (char_of_other ended)
  rw [Tree.renderRest_eq_flatMap] at reads
  rw [Tree.values_eq_map]
  exact Parser.repeated_of_reads round (fun t _ => List.cons_ne_nil ',' t.render) reads missed 0

/-- The trees between brackets are read up to the closing one. -/
theorem separated_of_trees {k : Nat} (inside : ReadsTrees inner k) {ts : List Tree}
    (short : ∀ t ∈ ts, t.render.length ≤ k) {c d : Cursor Char}
    (reads : c.Reads (Tree.renderItems ts) d) {s : Spanned Char} (peek : d.peek = some s)
    (bracket : s.item = ']') :
    inner.separated ((Parser.just ',').map Value.item) {} c =
      some ⟨.matched (Tree.values ts) d, []⟩ := by
  have next : ∀ u, d.peek = some u → u.item = ']' := by
    intro u found
    rw [← bracket, Option.some.inj (found.symm.trans peek)]
  rw [Parser.separated_plain, Parser.orDefault, Parser.cons]
  cases ts with
  | nil =>
    obtain rfl : c = d := (Cursor.Reads.refl c).unique reads
    have missed := inside.misses c fun u found => by
      rw [next u found]
      decide
    rw [Parser.orElse_of_noMatch (Parser.andThen_of_noMatch missed)]
    rfl
  | cons t ts =>
    obtain ⟨e, first, rest⟩ := reads.split
    have found := inside.reads t (short t List.mem_cons_self) _ _ first
    have more := repeated_of_trees inside (fun u mem => short u (List.mem_cons_of_mem t mem))
      rest fun u found => by
        rw [next u found]
        decide
    apply Parser.orElse_of_matched
    rw [Parser.andThen_of_matched found, Parser.map_apply, more]
    rfl

/-- The parser of trees misses where no tree begins, whatever the parser inside. -/
theorem treeParser_misses {c : Cursor Char}
    (other : ∀ s, c.peek = some s → s.item ∉ digits ∧ s.item ≠ '[') :
    treeParser inner c = some ⟨.noMatch, []⟩ := by
  have bracket := char_of_other (ε := ε) fun s peek => (other s peek).2
  rw [treeParser, Parser.orElse_of_noMatch (digit_of_other fun s peek => (other s peek).1),
    Parser.delimited_of_noMatch bracket]
  rfl

/-- The parser of trees finds every digit, whatever the parser inside. -/
theorem treeParser_digit {c d : Cursor Char} {e : Fin 10}
    (reads : c.Reads (Tree.digit e).render d) :
    treeParser inner c = some ⟨.matched (Tree.digit e).value d, []⟩ := by
  obtain ⟨s, peek, same, rest⟩ := reads.uncons
  obtain rfl : c.next = d := (Cursor.Reads.refl _).unique rest
  apply Parser.orElse_of_matched
  have passed : decide (s.item ∈ digits) = true := by
    rw [same]
    exact decide_eq_true (Tree.digitChar_mem e)
  rw [Parser.map_apply, Parser.oneOf, Parser.satisfy_of_passed peek passed, same]
  rfl

/-- The parser of trees finds every list of which the parser inside finds the trees. -/
theorem treeParser_list {k : Nat} (inside : ReadsTrees inner k) {ts : List Tree}
    (short : ∀ t ∈ ts, t.render.length ≤ k) {c d : Cursor Char}
    (reads : c.Reads (Tree.list ts).render d) :
    treeParser inner c = some ⟨.matched (Tree.list ts).value d, []⟩ := by
  obtain ⟨s, peek, opening, rest⟩ := reads.uncons
  obtain ⟨e, items, closing⟩ := rest.split
  obtain ⟨u, peek', closed, last⟩ := closing.uncons
  obtain rfl : e.next = d := (Cursor.Reads.refl _).unique last
  have other : ∀ v, c.peek = some v → v.item ∉ digits := by
    intro v found
    rw [← Option.some.inj (peek.symm.trans found), opening]
    decide
  have between := separated_of_trees inside short items peek' closed
  have list : (inner.separated ((Parser.just ',').map Value.item) {}).map Value.list c.next =
      some ⟨.matched (Tree.list ts).value e, []⟩ := by
    rw [Parser.map_apply, between]
    rfl
  rw [treeParser, Parser.orElse_of_noMatch (digit_of_other other),
    Parser.delimited_of_matched (char_of_peek peek opening) list (char_of_peek peek' closed)]
  rfl

/-- At every depth of calls, all trees are found whose text is not much longer. -/
theorem readsTrees_run (depth : Nat) :
    ReadsTrees (run treeRules depth (tree : Grammar (Fin 1) Char ε)) (2 * depth + 1) := by
  induction depth with
  | zero =>
    rw [run_tree]
    refine ⟨?_, fun c other => treeParser_misses other⟩
    intro t short c d reads
    cases t with
    | digit e => exact treeParser_digit reads
    | list ts =>
      rw [Tree.render, List.length_cons, List.length_append] at short
      simp at short
  | succ depth ih =>
    rw [run_tree]
    refine ⟨?_, fun c other => treeParser_misses other⟩
    intro t short c d reads
    cases t with
    | digit e => exact treeParser_digit reads
    | list ts =>
      rw [Tree.render, List.length_cons, List.length_append, List.length_singleton] at short
      refine treeParser_list ih ?_ reads
      intro u mem
      have less := Tree.length_render_le_items mem
      omega

/-- Trees compute nothing on their own and ask for nothing that has to be there. -/
def Plain : Grammar (Fin 1) Char ε → Prop
  | .answer _ => False
  | .withContext _ _ => False
  | .require _ _ => False
  | _ => True

theorem plain_tree : Everywhere Plain (tree : Grammar (Fin 1) Char ε) := by
  simp [tree, delimited, Everywhere, Plain]

/-- Every text is answered: a tree calls trees behind a bracket only. -/
theorem parse_tree_replies (c : Cursor Char) :
    ∃ r, parse treeRules (tree : Grammar (Fin 1) Char ε) c = some r := by
  have plain {h : Grammar (Fin 1) Char ε} (inside : Within treeRules tree h) : Plain h :=
    inside.of_everywhere (fun _ => trivial) (fun _ => plain_tree) plain_tree
  have own : OwnReplies neverBack treeRules (Within treeRules (tree : Grammar (Fin 1) Char ε)) :=
    ownReplies_within (fun f inside => nomatch plain inside)
      (fun p next inside => nomatch plain inside)
  have ranked : ∀ r s, Leads treeRules (treeRules r : Grammar (Fin 1) Char ε) (.call s) →
      (0 : Nat) < 0 := by
    intro r s leads
    exact nomatch mem_leading_of_leads own (.rule treeRules tree r) leads
  obtain ⟨depth, r, found⟩ := terminates_run own (fun p next inside => nomatch plain inside)
    (.rule treeRules tree) (fun _ => 0) ranked (.self treeRules tree) c
  refine ⟨r, parse_of_run ?_ found⟩
  intro f reached
  exact nomatch plain_tree.of_reaches (fun _ => plain_tree) reached

theorem tree_ne_errored {depth : Nat} {c : Cursor Char} {e : ε} {s : Span} {log : List Event} :
    run treeRules depth tree c ≠ some ⟨.errored e s, log⟩ := by
  have never : ReplyProperty.Composes fun (_ : Cursor Char) (o : Outcome Char Unit ε) _ =>
      o.isErrored = false :=
    { stay := fun _ => rfl
      advance := fun _ _ => rfl
      miss := fun _ => rfl
      short := fun _ _ => rfl
      stall := fun _ => rfl
      goOn := fun _ second => second
      retry := fun _ second => second }
  have plain {h : Grammar (Fin 1) Char ε} (reached : Reaches treeRules tree h) : Plain h :=
    plain_tree.of_reaches (fun _ => plain_tree) reached
  have own : OwnReplies (fun _ o _ => o.isErrored = false) treeRules
      (Reaches treeRules (tree : Grammar (Fin 1) Char ε)) :=
    ownReplies_of_reaches (fun p e reached => nomatch plain reached)
      (fun f reached => nomatch plain reached)
  intro failed
  exact nomatch ensures_run never own (.refl treeRules tree) depth c _ failed

/-- A tree that is written ahead is found, and nothing is reported. -/
theorem parse_of_reads_tree {c d : Cursor Char} {t : Tree} (reads : c.Reads t.render d) :
    parse treeRules (tree : Grammar (Fin 1) Char ε) c = some ⟨.matched t.value d, []⟩ := by
  have short : t.render.length ≤ 2 * depthOn 1 c.items + 1 := by
    have count := reads.left
    simp only [Cursor.left, depthOn] at count ⊢
    omega
  exact (readsTrees_run (depthOn 1 c.items)).reads t short c d reads

/-- At every cursor, the parse of trees ends. It matches up to a place if and only if the
text up to there is a tree written out, with the value of that tree; it misses if and
only if no tree is written at the beginning of the text; it never fails. So a tree that is
written in front of anything is given back, and the parse stops right behind it. -/
theorem tree_parsed_exactly (c : Cursor Char) :
    ∃ o log, parse treeRules (tree : Grammar (Fin 1) Char ε) c = some ⟨o, log⟩ ∧
      (∀ v d, o = .matched v d ↔ ∃ t : Tree, c.Reads t.render d ∧ v = t.value) ∧
      (o = .noMatch ↔ ∀ t : Tree, ¬ t.render <+: c.ahead) ∧
      (∀ e s, o ≠ .errored e s) ∧
      ∀ (t : Tree) after, c.ahead = t.render ++ after →
        ∃ d, o = .matched t.value d ∧ d.ahead = after ∧
          d.position = c.position + t.render.length ∧ ∀ u : Tree, u.value = t.value → u = t := by
  obtain ⟨⟨o, log⟩, found⟩ := parse_tree_replies (ε := ε) c
  have complete (t : Tree) (d : Cursor Char) (reads : c.Reads t.render d) :
      o = .matched t.value d := by
    have read := parse_of_reads_tree (ε := ε) reads
    exact (Reply.mk.inj (Option.some.inj (found.symm.trans read))).1
  have sound (v : Value Char) (d : Cursor Char) (matched : o = .matched v d) :
      ∃ t : Tree, c.Reads t.render d ∧ v = t.value := by
    subst matched
    exact finds_run _ c v d log found
  have never (e : ε) (s : Span) : o ≠ .errored e s := by
    rintro rfl
    exact tree_ne_errored found
  refine ⟨o, log, found, ?_, ?_, never, ?_⟩
  · intro v d
    constructor
    · exact sound v d
    · rintro ⟨t, reads, rfl⟩
      exact complete t d reads
  · constructor
    · rintro rfl t ⟨after, written⟩
      obtain ⟨d, reads, -⟩ := Cursor.Reads.of_ahead written.symm
      exact nomatch complete t d reads
    · intro none
      rcases o with ⟨v, d⟩ | _ | ⟨e, s⟩
      · obtain ⟨t, reads, -⟩ := sound v d rfl
        exact absurd ⟨d.ahead, reads.ahead.symm⟩ (none t)
      · rfl
      · exact absurd rfl (never e s)
  · intro t after written
    obtain ⟨d, reads, rest⟩ := Cursor.Reads.of_ahead written
    exact ⟨d, complete t d reads, rest, reads.position, fun u => Tree.value_injective u t⟩

end Grammar

end SpannedParsing
