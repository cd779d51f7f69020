import Mathlib.Data.Fintype.Card
import Mathlib.Data.Fintype.Prod
import SpannedParsing.Proofs.Coupling

/-!
# How deep calls can be nested

`parse` allows as many calls inside each other as there are pairs of a rule and a
position. That is enough for every grammar that stays on its input: whatever a run of
any depth replies, `parse` replies (`parse_of_run`). So `parse` gives no reply only
where no depth would do.

With more depth more pairs get a reply, and none loses it. As soon as one more level
gives no new pair, both levels agree everywhere and no further level gives one
either. There are only so many pairs, so the levels agree from that number on.
-/
namespace SpannedParsing

variable {ρ ι ε : Type}

/-- The second cursor is among the same items, from the same path. -/
structure Cursor.SameInput (c d : Cursor ι) : Prop where
  items : d.items = c.items
  source : d.source = c.source

namespace Cursor.SameInput

theorem refl (c : Cursor ι) : c.SameInput c := ⟨rfl, rfl⟩

theorem eq_moveTo {c d : Cursor ι} (h : c.SameInput d) : d = c.moveTo d.position := by
  have bound := d.position_le
  rw [h.items] at bound
  have stays : min d.position c.items.size = d.position := by omega
  exact Cursor.ext h.items stays.symm h.source

theorem moveTo (c : Cursor ι) (position : Nat) : c.SameInput (c.moveTo position) := ⟨rfl, rfl⟩

end Cursor.SameInput

namespace Grammar

/-- No outcome that the grammar computes on its own leaves the input of the cursor that
it is given. -/
def StaysOnInput (table : ρ → Grammar ρ ι ε) (g : Grammar ρ ι ε) : Prop :=
  ∀ f, Reaches table g (.answer f) → ∀ c value d, f c = .matched value d → c.SameInput d

variable {table : ρ → Grammar ρ ι ε} {g : Grammar ρ ι ε} {c : Cursor ι}

theorem within_ahead (c : Cursor ι) : (Coupling.within c.SameInput : Coupling ι ι ε).Ahead where
  items together := by rw [together.1]
  advance n together := by
    obtain ⟨rfl, there⟩ := together
    exact ⟨rfl, there.items, there.source⟩

theorem ownNodes_of_stays (stays : StaysOnInput table g) (c : Cursor ι) :
    OwnNodes (.within c.SameInput) table (Reaches table g) where
  parts _ _ reached inside := reached.part inside
  unmet p e _ := by
    rintro d _ ⟨rfl, -⟩
    exact .some (.errored ⟨rfl, rfl⟩)
  captured p _ := by
    rintro d _ rest _ ⟨rfl, -⟩ ⟨rfl, -⟩
    rfl
  answer f reached := by
    rintro d _ ⟨rfl, there⟩
    rw [Parser.ofOutcome_apply]
    rcases answered : f d with ⟨value, rest⟩ | _ | ⟨e, s⟩
    · have same := stays f reached d value rest answered
      have onInput : c.SameInput rest :=
        ⟨same.items.trans there.items, same.source.trans there.source⟩
      exact .some (.matched rfl ⟨rfl, onInput⟩ rfl)
    · exact .some (.noMatch rfl)
    · exact .some (.errored ⟨rfl, rfl⟩)

variable [DecidableEq ι]

/-- A grammar that stays on its input makes no difference between rules that agree
there. -/
theorem coupled_of_stays (stays : StaysOnInput table g)
    {rules rules' : ρ → Parser ι (Value ι) ε}
    (called : ∀ r, Reaches table g (.call r) →
      Parser.Coupled (.within c.SameInput) Eq (rules r) (rules' r))
    {h : Grammar ρ ι ε} (reached : Reaches table g h) :
    Parser.Coupled (.within c.SameInput) Eq (denote rules h) (denote rules' h) := by
  refine coupled_denote (Coupling.within_composes _) (within_ahead c) (ownNodes_of_stays stays c)
    called ?_ h reached
  rintro p next context value chosen d _ ⟨rfl, there⟩
  exact chosen d (context.choice value d) d d ⟨rfl, there⟩

/-- Two depths agree on an input: every rule that is reached replies alike. -/
def Agree (table : ρ → Grammar ρ ι ε) (g : Grammar ρ ι ε) (c : Cursor ι) (m k : Nat) : Prop :=
  ∀ r, Reaches table g (.call r) → ∀ d, c.SameInput d →
    run table m (.call r) d = run table k (.call r) d

/-- Matches of a grammar that stays on its input stay there, at every depth. -/
theorem alike_of_stays (stays : StaysOnInput table g) (c : Cursor ι) (m : Nat)
    {h : Grammar ρ ι ε} (reached : Reaches table g h) :
    Alike (.within c.SameInput) (run table m h) := by
  have rules : ∀ m r, Reaches table g (.call r) →
      Alike (.within c.SameInput) (run table m (.call r)) := by
    intro m
    induction m with
    | zero => exact fun _ _ _ _ _ => .none
    | succ m ih => exact fun r called => coupled_of_stays stays ih (called.part rfl)
  exact coupled_of_stays stays (rules m) reached

/-- Where two depths agree on all rules, they agree on all that is reached. -/
theorem run_eq_of_agree (stays : StaysOnInput table g) {m k : Nat} (agree : Agree table g c m k)
    {h : Grammar ρ ι ε} (reached : Reaches table g h) {d : Cursor ι} (there : c.SameInput d) :
    run table m h d = run table k h d := by
  refine Parser.Coupled.eq_of_within (coupled_of_stays stays ?_ reached) there
  rintro r called d _ ⟨rfl, there⟩
  have alike := alike_of_stays stays c m called d d ⟨rfl, there⟩
  change Option.Rel _ (run table m (.call r) d) (run table k (.call r) d)
  rw [← agree r called d there]
  exact alike

theorem Agree.succ (stays : StaysOnInput table g) {m k : Nat} (agree : Agree table g c m k) :
    Agree table g c (m + 1) (k + 1) := by
  intro r called d there
  exact run_eq_of_agree stays agree (called.part rfl) there

section Pairs

variable {n : Nat} {table : Fin n → Grammar (Fin n) ι ε} {g : Grammar (Fin n) ι ε}
  {c : Cursor ι}

open Classical in
/-- The rules that are reached, with the positions where they reply within a depth. -/
noncomputable def answered (table : Fin n → Grammar (Fin n) ι ε) (g : Grammar (Fin n) ι ε)
    (c : Cursor ι) (m : Nat) : Finset (Fin n × Fin (c.items.size + 1)) :=
  {pair | Reaches table g (.call pair.1) ∧
    (run table m (.call pair.1) (c.moveTo pair.2)).isSome}

theorem mem_answered {m : Nat} {r : Fin n} {position : Fin (c.items.size + 1)} :
    (r, position) ∈ answered table g c m ↔ Reaches table g (.call r) ∧
      ∃ x, run table m (.call r) (c.moveTo position) = some x := by
  simp [answered, Option.isSome_iff_exists]

theorem answered_mono {m k : Nat} (le : m ≤ k) :
    answered table g c m ⊆ answered table g c k := by
  rintro ⟨r, position⟩ member
  obtain ⟨reached, x, found⟩ := mem_answered.mp member
  exact mem_answered.mpr ⟨reached, x, run_mono table le _ _ _ found⟩

theorem card_answered_le (table : Fin n → Grammar (Fin n) ι ε) (g : Grammar (Fin n) ι ε)
    (c : Cursor ι) (m : Nat) : (answered table g c m).card ≤ depthOn n c.items := by
  have bound := Finset.card_le_univ (answered table g c m)
  rw [Fintype.card_prod, Fintype.card_fin, Fintype.card_fin] at bound
  exact bound

/-- A deeper level that answers no more pairs agrees with the level before. -/
theorem agree_of_card_eq {m k : Nat} (le : m ≤ k)
    (same : (answered table g c m).card = (answered table g c k).card) :
    Agree table g c m k := by
  have pairs : answered table g c m = answered table g c k :=
    Finset.eq_of_subset_of_card_le (answered_mono le) (Nat.le_of_eq same.symm)
  intro r reached d there
  rcases deep : run table k (.call r) d with _ | x
  · rcases shallow : run table m (.call r) d with _ | y
    · rfl
    · exact absurd (run_mono table le _ _ _ shallow) (by simp [deep])
  · have bound := d.position_le
    rw [there.items] at bound
    have member : (r, ⟨d.position, by omega⟩) ∈ answered table g c k :=
      mem_answered.mpr ⟨reached, x, by rw [← there.eq_moveTo]; exact deep⟩
    rw [← pairs] at member
    obtain ⟨-, y, shallow⟩ := mem_answered.mp member
    rw [← there.eq_moveTo] at shallow
    have kept := run_mono table le _ _ _ shallow
    rw [shallow, ← kept, deep]

theorem Agree.card_eq {m k : Nat} (agree : Agree table g c m k) :
    (answered table g c m).card = (answered table g c k).card := by
  congr 1
  ext ⟨r, position⟩
  rw [mem_answered, mem_answered]
  refine and_congr_right ?_
  intro reached
  rw [agree r reached _ (.moveTo c position)]

/-- From the number of pairs on, more depth changes nothing. -/
theorem run_eq_of_depthOn_le (stays : StaysOnInput table g) {k : Nat}
    (deep : depthOn n c.items ≤ k) : run table k g c = run table (depthOn n c.items) g c := by
  have grows : Monotone fun m => (answered table g c m).card := fun _ _ le =>
    Finset.card_le_card (answered_mono le)
  have stops : ∀ m, (answered table g c m).card = (answered table g c (m + 1)).card →
      (answered table g c (m + 1)).card = (answered table g c (m + 2)).card := by
    intro m same
    exact ((agree_of_card_eq (Nat.le_succ m) same).succ stays).card_eq
  have stable := Nat.stabilises_of_monotone grows (card_answered_le table g c) stops deep
  have agree := agree_of_card_eq deep stable.symm
  exact (run_eq_of_agree stays agree (.refl table g) (.refl c)).symm

/-- Whatever a run of any depth replies, `parse` replies. -/
theorem parse_of_run (stays : StaysOnInput table g) {depth : Nat} {r : Reply ι (Value ι) ε}
    (found : run table depth g c = some r) : parse table g c = some r := by
  have deeper := run_mono table (Nat.le_max_left depth (depthOn n c.items)) g c r found
  rw [run_eq_of_depthOn_le stays (Nat.le_max_right _ _)] at deeper
  exact deeper

end Pairs

end Grammar

end SpannedParsing
