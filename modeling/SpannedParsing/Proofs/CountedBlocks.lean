import SpannedParsing.Proofs.Reach
import SpannedParsing.Proofs.Reading

/-!
# Blocks with their length in front

Blocks of tokens are written one after the other, each as its length and its tokens. No mark
separates them, and a token may look like a length, so only the lengths tell where a block
ends. Reading goes from length to length: after each of them, a context takes as many tokens
as it says. So the blocks come back as they were written (`lengthBlocks_of_reads`). A block that
is cut short is no block at all, and is left as it stands, with its length.
-/
namespace SpannedParsing

/-- Whether the item can be a length: a number token that is not negative. -/
def Item.isLength : Item → Bool
  | .number n => decide (0 ≤ n)
  | _ => false

/-- A block of tokens as it is written, with its length in front. -/
def writeBlock (tokens : List Item) : List Item := .number tokens.length :: tokens

def writeBlocks (blocks : List (List Item)) : List Item := blocks.flatMap writeBlock

/-- A block of tokens as it is found: its length, and its tokens. -/
def Value.ofBlock (tokens : List Item) : Value Item :=
  .pair (.item (.number tokens.length)) (.ofItems tokens)

namespace Grammar

variable {ρ ε : Type} {c d : Cursor Item} {tokens : List Item} {blocks : List (List Item)}

/-- A length, and as many items as it says. -/
def lengthBlock : Grammar ρ Item ε :=
  .withContext (.satisfy Item.isLength) fun value _ => counted value

def lengthBlocks : Grammar ρ Item ε := .repeated lengthBlock 0

def onlyBlocks : Grammar ρ Item ε := .both .left lengthBlocks .finish

section Rules

variable (rules : ρ → Parser Item (Value Item) ε)

/-- Items are taken from what lies ahead, if there are enough of them. -/
theorem denote_take (n : Nat) (c : Cursor Item) : denote rules (take n) c =
    some ⟨if n ≤ c.ahead.length then .matched (.ofItems (c.ahead.take n)) (c.advance n)
      else .noMatch, []⟩ := by
  rw [take, denote_answer, Parser.ofOutcome_apply, Cursor.split?_eq, Cursor.length_ahead]
  by_cases enough : n ≤ c.left
  · simp [enough, Cursor.ahead, List.map_take]
  · simp [enough]

/-- Behind a length, the next items are the block, if there are as many as it says. -/
theorem denote_lengthBlock {n : Nat} {behind : List Item} (ahead : c.ahead = .number n :: behind) :
    denote rules lengthBlock c =
      some ⟨if n ≤ behind.length then
        .matched (.pair (.item (.number n)) (.ofItems (behind.take n))) (c.next.advance n)
        else .noMatch, []⟩ := by
  obtain ⟨s, peek, length⟩ := Cursor.peek_of_ahead ahead
  have after : c.next.ahead = behind := by
    rw [Cursor.ahead_of_peek peek] at ahead
    exact (List.cons.inj ahead).2
  have passed : Item.isLength s.item = true := by simp [length, Item.isLength]
  have first : (Parser.satisfy Item.isLength).map Value.item c =
      (some ⟨.matched (.item (.number n)) c.next, []⟩ : Option (Reply Item (Value Item) ε)) := by
    rw [Parser.map_apply, Parser.satisfy_of_passed peek passed, length]
    rfl
  have amount : (Value.item (.number n)).amount = n := Int.toNat_natCast n
  rw [lengthBlock, denote_withContext, denote_satisfy, Parser.andThen_of_matched first, counted,
    amount, Parser.map_apply, denote_take, after]
  by_cases enough : n ≤ behind.length
  · simp [enough, Reply.after]
  · simp [enough, Reply.after]

theorem lengthBlock_of_reads (reads : c.Reads (writeBlock tokens) d) :
    denote rules lengthBlock c = some ⟨.matched (.ofBlock tokens) d, []⟩ := by
  have ahead : c.ahead = .number tokens.length :: (tokens ++ d.ahead) := reads.ahead
  obtain ⟨s, peek, -, rest⟩ := reads.uncons
  have enough : tokens.length ≤ (tokens ++ d.ahead).length := by simp
  rw [denote_lengthBlock rules ahead, if_pos enough, List.take_left, ← rest.eq_advance,
    Value.ofBlock]

theorem lengthBlock_of_end (nothing : c.ahead = []) :
    denote rules lengthBlock c = some ⟨.noMatch, []⟩ := by
  have missed : Parser.satisfy Item.isLength c =
      (some ⟨.noMatch, []⟩ : Option (Reply Item Item ε)) := by
    apply Parser.satisfy_of_failed
    intro s peek
    rw [Cursor.ahead_of_peek peek] at nothing
    exact nomatch nothing
  have first : (Parser.satisfy Item.isLength).map Value.item c =
      (some ⟨.noMatch, []⟩ : Option (Reply Item (Value Item) ε)) := by
    rw [Parser.map_apply, missed]
    rfl
  rw [lengthBlock, denote_withContext]
  exact Parser.andThen_of_noMatch first

/-- Blocks are read one after the other, up to a place where there is no block. -/
theorem lengthBlocks_of_reads (reads : c.Reads (writeBlocks blocks) d)
    (missed : denote rules lengthBlock d = some ⟨.noMatch, []⟩) :
    denote rules lengthBlocks c = some ⟨.matched (.list (blocks.map .ofBlock)) d, []⟩ := by
  have round : ∀ tokens ∈ blocks, ∀ e f, e.Reads (writeBlock tokens) f →
      denote rules lengthBlock e = some ⟨.matched (.ofBlock tokens) f, []⟩ :=
    fun tokens _ e f written => lengthBlock_of_reads rules written
  have all := Parser.repeated_of_reads round (fun tokens _ => List.cons_ne_nil _ tokens) reads
    missed 0
  rw [lengthBlocks, denote_repeated, Parser.map_apply, all]
  simp [Parser.enough]

/-- The blocks have to reach up to the end of the input. -/
theorem denote_onlyBlocks {value : Value Item}
    (found : denote rules lengthBlocks c = some ⟨.matched value d, []⟩) :
    denote rules onlyBlocks c =
      some ⟨if d.atEnd = true then .matched value d else .noMatch, []⟩ := by
  rw [onlyBlocks, denote_both_left, Parser.keepLeft, Parser.andThen_of_matched found,
    denote_finish, Parser.map_map, Parser.map_apply, Parser.finish, Parser.ofOutcome_apply]
  by_cases last : d.atEnd = true
  · simp [last, Reply.after]
  · simp [last, Reply.after]

end Rules

/-- Blocks that are written with their lengths in front are read back in their order, whatever
their tokens look like, and nothing of the input is left. Where the last block has lost tokens
at its end, the input is no list of blocks; those in front of it are still found, up to the
length of the block that was cut. -/
theorem blocks_read_back (table : ρ → Grammar ρ Item ε) (depth : Nat)
    (blocks : List (List Item)) :
    (∀ c : Cursor Item, c.ahead = writeBlocks blocks →
      ∃ d, c.Reads (writeBlocks blocks) d ∧ d.atEnd = true ∧
        run table depth onlyBlocks c = some ⟨.matched (.list (blocks.map .ofBlock)) d, []⟩) ∧
    ∀ kept lost : List Item, lost ≠ [] → ∀ c : Cursor Item,
      c.ahead = writeBlocks blocks ++ .number (kept ++ lost).length :: kept →
      run table depth onlyBlocks c = some ⟨.noMatch, []⟩ ∧
      ∃ d, c.Reads (writeBlocks blocks) d ∧ d.ahead = .number (kept ++ lost).length :: kept ∧
        run table depth lengthBlocks c = some ⟨.matched (.list (blocks.map .ofBlock)) d, []⟩ := by
  unfold run
  generalize Parser.nested (fun rules r c => denote rules (table r) c) depth = rules
  constructor
  · intro c ahead
    rw [← List.append_nil (writeBlocks blocks)] at ahead
    obtain ⟨d, reads, nothing⟩ := Cursor.Reads.of_ahead ahead
    have last : d.atEnd = true := by
      rw [Cursor.atEnd_iff_left, ← Cursor.length_ahead, nothing, List.length_nil]
    have found := lengthBlocks_of_reads rules reads (lengthBlock_of_end rules nothing)
    refine ⟨d, reads, last, ?_⟩
    rw [denote_onlyBlocks rules found, if_pos last]
  · intro kept lost some c ahead
    obtain ⟨d, reads, cut⟩ := Cursor.Reads.of_ahead ahead
    have few : ¬ (kept ++ lost).length ≤ kept.length := by
      have pos := List.length_pos_iff.mpr some
      rw [List.length_append]
      omega
    have missed := denote_lengthBlock rules cut
    rw [if_neg few] at missed
    have found := lengthBlocks_of_reads rules reads missed
    have more : ¬ d.atEnd = true := by
      rw [Cursor.atEnd_iff_left, ← Cursor.length_ahead, cut, List.length_cons]
      omega
    refine ⟨?_, d, reads, cut, found⟩
    rw [denote_onlyBlocks rules found, if_neg more]

end Grammar

end SpannedParsing
