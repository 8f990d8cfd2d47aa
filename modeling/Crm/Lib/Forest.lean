import Mathlib.Logic.Basic
import Mathlib.Tactic.Basic

/-!
# Forest — pointers that end at a root

`next k` is `none` if there is no node `k`, `some none` if `k` is a root, and `some (some p)` if it points to `p`.  `Ends` says that the way from a node
leads to a root.  Making nodes roots or pointing them at roots keeps it (`Ends.graft`).
-/

namespace Forest

variable {κ : Type} {next next' : κ → Option (Option κ)} {k : κ}

inductive Ends (next : κ → Option (Option κ)) : κ → Prop
  | root {k : κ} (h : next k = some none) : Ends next k
  | step {k p : κ} (h : next k = some (some p)) (hp : Ends next p) : Ends next k

/-- The node is a root, or points to one. -/
def Shallow (next : κ → Option (Option κ)) (k : κ) : Prop := next k = some none ∨ ∃ p, next k = some (some p) ∧ next p = some none

theorem Shallow.ends (h : Shallow next k) : Ends next k := by
  rcases h with h | ⟨p, h, hp⟩
  · exact .root h
  · exact .step h (.root hp)

/-- Some nodes become roots or point to roots; the others stay as they are. -/
theorem Ends.graft (hk : Ends next k) (h : ∀ k, next' k = next k ∨ Shallow next' k) : Ends next' k := by
  induction hk with
  | @root k hroot =>
    rcases h k with heq | hs
    · exact .root (heq.trans hroot)
    · exact hs.ends
  | @step k p hstep _ ih =>
    rcases h k with heq | hs
    · exact .step (heq.trans hstep) ih
    · exact hs.ends

/-- On a way that ends, no node points to itself through others: a two-node cycle does not end. -/
theorem not_ends_of_cycle {p : κ} (hk : next k = some (some p)) (hp : next p = some (some k)) : ¬ Ends next k := by
  have key : ∀ {x : κ}, Ends next x → x ≠ k ∧ x ≠ p := by
    intro x hx
    induction hx with
    | @root x hroot =>
      refine ⟨?_, ?_⟩
      · rintro rfl
        rw [hk] at hroot
        cases hroot
      · rintro rfl
        rw [hp] at hroot
        cases hroot
    | @step x y hstep _ ih =>
      refine ⟨?_, ?_⟩
      · rintro rfl
        rw [hk] at hstep
        cases hstep
        exact ih.2 rfl
      rintro rfl
      rw [hp] at hstep
      cases hstep
      exact ih.1 rfl
  exact fun h => (key h).1 rfl

end Forest
