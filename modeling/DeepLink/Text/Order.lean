import DeepLink.Text

/-!
# The order of texts

Texts are ordered by the values of their characters: `precedes` compares them at the first
place where they differ, and puts a text before its own extensions. Since UTF-8 keeps the
order of characters, this is also the order of the written bytes.

The order is strict (`precedes_irrefl`, `precedes_trans`, so `precedes_asymm`) and total
(`precedes_total`).
-/
namespace DeepLink.Text

/-- Whether the first text comes before the second one. -/
def precedes : Text → Text → Bool
  | _, [] => false
  | [], _ :: _ => true
  | c :: left, d :: right => c.toNat < d.toNat || (c == d && precedes left right)

theorem precedes_cons {c d : Char} {left right : Text} :
    precedes (c :: left) (d :: right) = true ↔
      c.toNat < d.toNat ∨ (c = d ∧ precedes left right = true) := by
  simp [precedes]

theorem precedes_irrefl (text : Text) : precedes text text = false := by
  induction text with
  | nil => rfl
  | cons c rest ih => simp [precedes, ih]

theorem precedes_trans {first second third : Text} (left : precedes first second = true)
    (right : precedes second third = true) : precedes first third = true := by
  induction first generalizing second third with
  | nil => cases second <;> cases third <;> simp_all [precedes]
  | cons c rest ih =>
    cases second with
    | nil => simp [precedes] at left
    | cons d middle =>
      cases third with
      | nil => simp [precedes] at right
      | cons e last =>
        rw [precedes_cons] at left right ⊢
        rcases left with less | ⟨rfl, inner⟩
        · rcases right with more | ⟨rfl, _⟩
          · exact .inl (Nat.lt_trans less more)
          · exact .inl less
        · exact right.imp id fun ⟨same, later⟩ => ⟨same, ih inner later⟩

theorem precedes_asymm {left right : Text} (forward : precedes left right = true) :
    precedes right left = false := by
  refine Bool.eq_false_iff.mpr fun backward => ?_
  have loop := precedes_trans forward backward
  simp [precedes_irrefl] at loop

theorem precedes_total {left right : Text} (different : left ≠ right) :
    precedes left right = true ∨ precedes right left = true := by
  induction left generalizing right with
  | nil => cases right <;> simp_all [precedes]
  | cons c rest ih =>
    cases right with
    | nil => exact .inr rfl
    | cons d others =>
      rw [precedes_cons, precedes_cons]
      by_cases same : c = d
      · subst same
        have inner : rest ≠ others := fun equal => different (equal ▸ rfl)
        exact (ih inner).imp (.inr ⟨rfl, ·⟩) (.inr ⟨rfl, ·⟩)
      · have values : c.toNat ≠ d.toNat := fun equal => same (Char.toNat_inj.mp equal)
        exact (Nat.lt_or_gt_of_ne values).imp .inl .inl

end DeepLink.Text
