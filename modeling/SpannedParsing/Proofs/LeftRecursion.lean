import SpannedParsing.Proofs.Progress

/-!
# What a grammar calls before anything is consumed

A grammar leads to a rule if it can call it before anything is consumed. `Leads` says
this with what parsers do: behind a part that always moves on, nothing is led to.
`leading` computes the rules that a grammar is seen to lead to, and
`mem_leading_of_leads` shows that there are no others; so left recursion, or that there
is none, can be read off a table of rules.
-/
namespace SpannedParsing.Grammar

variable {ρ ι ε : Type}

/-- The second grammar is a part of the first one that may run where the first one
starts: no part that always moves on has to match before it. -/
def Opens [DecidableEq ι] (table : ρ → Grammar ρ ι ε) : Grammar ρ ι ε → Grammar ρ ι ε → Prop
  | .just _, _ => False
  | .oneOf _, _ => False
  | .satisfy _, _ => False
  | .sequence _, _ => False
  | .finish, _ => False
  | .answer _, _ => False
  | .both _ p q, part => part = p ∨ part = q ∧ ¬ StrictlyAdvances table p
  | .orElse p q, part => part = p ∨ part = q
  | .firstOf ps, part => part ∈ ps
  | .maybe _ p, part => part = p
  | .require p _, part => part = p
  | .spanned p, part => part = p
  | .map _ p, part => part = p
  | .check p _, part => part = p
  | .repeated p _, part => part = p
  | .separated item separator form, part =>
    part = item ∨
      part = separator ∧ (form.leading = true ∨ ¬ StrictlyAdvances table item)
  | .withContext p _, part => part = p
  | .call _, _ => False

/-- The second grammar stands in the first one where it may run before anything is
consumed. -/
def Leads [DecidableEq ι] (table : ρ → Grammar ρ ι ε) : Grammar ρ ι ε → Grammar ρ ι ε → Prop :=
  Relation.ReflTransGen (Opens table)

mutual

/-- The rules that a grammar is seen to lead to. -/
def leading : Grammar ρ ι ε → List ρ
  | .just _ => []
  | .oneOf _ => []
  | .satisfy _ => []
  | .sequence _ => []
  | .finish => []
  | .answer _ => []
  | .both _ p q => leading p ++ if consuming p then [] else leading q
  | .orElse p q => leading p ++ leading q
  | .firstOf ps => allLeading ps
  | .maybe _ p => leading p
  | .require p _ => leading p
  | .spanned p => leading p
  | .map _ p => leading p
  | .check p _ => leading p
  | .repeated p _ => leading p
  | .separated item separator form =>
    leading item ++ if !form.leading && consuming item then [] else leading separator
  | .withContext p _ => leading p
  | .call r => [r]

def allLeading : List (Grammar ρ ι ε) → List ρ
  | [] => []
  | p :: ps => leading p ++ allLeading ps

end

theorem leading_subset_of_mem {ps : List (Grammar ρ ι ε)} {p : Grammar ρ ι ε} (mem : p ∈ ps) :
    p.leading ⊆ allLeading ps := by
  induction ps with
  | nil => exact nomatch mem
  | cons q qs ih =>
    rw [allLeading]
    rcases List.mem_cons.mp mem with rfl | mem
    · exact List.subset_append_left _ _
    · exact List.subset_append_of_subset_right _ (ih mem)

section Leading

variable [DecidableEq ι] {table : ρ → Grammar ρ ι ε} {family : Grammar ρ ι ε → Prop}
  {h part : Grammar ρ ι ε}

theorem Opens.hasPart (opens : Opens table h part) : HasPart table h part := by
  cases h with
  | just | oneOf | satisfy | sequence | finish | answer | call => exact nomatch opens
  | both | separated =>
    obtain rfl | ⟨rfl, -⟩ := opens
    · exact Or.inl rfl
    · exact Or.inr rfl
  | orElse | firstOf | maybe | require | spanned | map | check | repeated | withContext =>
    exact opens

/-- What may run at the start of a part is seen in the whole. -/
theorem leading_subset_of_opens (own : OwnReplies neverBack table family) (member : family h)
    (opens : Opens table h part) : part.leading ⊆ h.leading := by
  have unseen {p : Grammar ρ ι ε} (inside : family p) (stands : ¬ StrictlyAdvances table p) :
      p.consuming = false :=
    Bool.eq_false_iff.mpr fun seen => stands (strictlyAdvances_of_consuming own p inside seen)
  cases h with
  | just | oneOf | satisfy | sequence | finish | answer | call => exact nomatch opens
  | both joining p q =>
    rw [leading]
    obtain rfl | ⟨rfl, stands⟩ := opens
    · exact List.subset_append_left _ _
    · rw [if_neg (by simp [unseen (own.parts _ p member (Or.inl rfl)) stands])]
      exact List.subset_append_right _ _
  | orElse p q =>
    rw [leading]
    obtain rfl | rfl := opens
    · exact List.subset_append_left _ _
    · exact List.subset_append_right _ _
  | firstOf ps => exact leading_subset_of_mem opens
  | maybe | require | spanned | map | check | repeated | withContext =>
    obtain rfl := opens
    exact List.Subset.refl _
  | separated item separator form =>
    rw [leading]
    obtain rfl | ⟨rfl, first | stands⟩ := opens
    · exact List.subset_append_left _ _
    · rw [if_neg (by simp [first])]
      exact List.subset_append_right _ _
    · rw [if_neg (by simp [unseen (own.parts _ item member (Or.inl rfl)) stands])]
      exact List.subset_append_right _ _

/-- A grammar leads to no rules but those that it is seen to lead to. -/
theorem mem_leading_of_leads (own : OwnReplies neverBack table family) (member : family h)
    {r : ρ} (leads : Leads table h (.call r)) : r ∈ h.leading := by
  induction leads using Relation.ReflTransGen.head_induction_on with
  | refl => exact List.mem_singleton_self r
  | head opens _ ih =>
    exact leading_subset_of_opens own member opens (ih (own.parts _ _ member opens.hasPart))

end Leading

end SpannedParsing.Grammar
